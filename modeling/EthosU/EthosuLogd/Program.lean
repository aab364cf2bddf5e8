import EthosU.EthosuLogd.DeviceTree
import EthosU.EthosuLogd.Window

/-!
# The program and its two ways to the log

`ethosu_logd` gets the address of the log from the option `--address`, or else address and size from
the device tree.  This file has its `main`, from the arguments to the exit status.

* `parse` is the loop over the arguments, with `stol` for the address.
* `Machine.openLog` is the constructor of `DevMem`.  Whether `/dev/mem` can be opened, and what can
  be mapped of it, is up to the machine.
* `program` is `main`.  With `--address`, the size of the log stays zero.
* `program_agrees_iff` compares the two ways for all memories and all combinations of `-c` and `-C`.
  With `--address` the window is empty and the first read fails, so that they agree only where the
  other run fails too, or where the log happens to say so.
-/

set_option autoImplicit false

namespace EthosU

namespace EthosuLogd

open Wp Bytes

/-! ## Arguments -/

/-- `isspace`. -/
def isSpace (c : UInt8) : Bool := c = 0x20 || (9 ≤ c && c ≤ 13)

/-- The value of a digit or a letter, and 36 for everything else. -/
def digitValue (c : UInt8) : Nat :=
  if 0x30 ≤ c ∧ c ≤ 0x39 then c.toNat - 0x30
  else if 0x61 ≤ c ∧ c ≤ 0x7a then c.toNat - 0x61 + 10
  else if 0x41 ≤ c ∧ c ≤ 0x5a then c.toNat - 0x41 + 10
  else 36

/-- The number that a text starts with. -/
def numeral (base : Nat) (text : Text) : Option Nat :=
  let digits := text.takeWhile (digitValue · < base)
  if digits = [] then none else some (digits.foldl (fun n c ↦ base * n + digitValue c) 0)

/-- A number without a sign, whose base depends on how it starts. -/
def unsigned (text : Text) : Option Nat :=
  match text with
  | 0x30 :: x :: rest =>
    -- of `0x` without a digit behind it, the zero counts
    if x = 0x78 ∨ x = 0x58 then (numeral 16 rest).or (some 0) else numeral 8 text
  | 0x30 :: [] => numeral 8 text
  | _ => numeral 10 text

/-- `strtol` with base 0, without a limit. -/
def strtol (text : Text) : Option Int :=
  match text.dropWhile isSpace with
  | 0x2d :: rest => (unsigned rest).map fun n ↦ -(n : Int)
  | 0x2b :: rest => (unsigned rest).map Int.ofNat
  | rest => (unsigned rest).map Int.ofNat

/-- `std::stol(text, nullptr, 0)`.  Its two exceptions have the same message. -/
def stol (text : Text) : Except Exception Int64 :=
  match strtol text with
  | none => .error ⟨"stol"⟩
  | some n => if -2 ^ 63 ≤ n ∧ n < 2 ^ 63 then .ok (.ofInt n) else .error ⟨"stol"⟩

/-- The variables of `main`. -/
structure Options where
  address : UInt64 := 0
  clearBefore : Bool := false
  clearAfter : Bool := false
  deriving DecidableEq, Repr

/-- Why the loop over the arguments was left. -/
inductive Stop
  | exception (e : Exception)
  | exit (status : Int32) (err : Text)

def help (prog : Text) : Text :=
  bytes "USAGE: " ++ prog ++ bytes " [-h] [--address ADDRESS] [-c] [-C]\n\n"
    ++ bytes "positional argument:\n"
    ++ bytes "  -h, --help            Show help message and exit\n"
    ++ bytes "  --address ADDRESS     Address of ring buffer\n"
    ++ bytes "  -C                    Clear the ring buffer\n"
    ++ bytes "  -c                    Read and clear the ring buffer\n"

/-- The loop over the arguments. -/
def parse (prog : Text) : List Text → Options → Except Stop Options
  | [], o => .ok o
  | arg :: rest, o =>
    if arg = bytes "--address" then
      match rest with
      -- a `std::string` can not be made of the null pointer at the end of `argv`
      | [] => .error (.exception ⟨"basic_string: construction from null is not valid"⟩)
      | value :: rest =>
        match stol value with
        | .ok address => parse prog rest { o with address := address.toUInt64 }
        | .error e => .error (.exception e)
    else if arg = bytes "-c" then parse prog rest { o with clearAfter := true }
    else if arg = bytes "-C" then parse prog rest { o with clearBefore := true }
    else if arg = bytes "-h" ∨ arg = bytes "--help" then .error (.exit 0 (help prog))
    else .error (.exit 1 (bytes "Illegal argument '" ++ arg ++ bytes "'\n" ++ help prog))

/-! ## The window -/

/-- What the program depends on, besides its arguments and the memory. -/
structure Machine where
  fs : FileSystem
  /-- `sysconf(_SC_PAGESIZE)`. -/
  pageSize : UInt64
  /-- `/dev/mem` can be opened. -/
  opens : Bool
  /-- `mmap` can map so many bytes of it, from an offset on. -/
  maps : (length offset : UInt64) → Bool

namespace Machine

variable (machine : Machine)

def pageMask : UInt64 := machine.pageSize - 1

/-- The window that the constructor makes. -/
def window (address size : UInt64) : Log where
  base := (address &&& ~~~machine.pageMask).toNat
  pageOffset := address &&& machine.pageMask
  size := size

/-- The pages of the window can be mapped. -/
def mapsWindow (address size : UInt64) : Bool :=
  machine.maps ((address &&& machine.pageMask) + size) (address &&& ~~~machine.pageMask)

/-- `Log::Log` and `DevMem::DevMem`. -/
def openLog (address size : UInt64) : M Log :=
  if machine.opens = false then throw ⟨"Failed to open device"⟩
  else if machine.mapsWindow address size = false then throw ⟨"MMap failed"⟩
  else pure (machine.window address size)

end Machine

/-! ## The program -/

/-- How a run ends. -/
inductive Ending
  | exited (status : Int32)
  /-- A property of the device tree has been read behind its end. -/
  | undefined
  deriving DecidableEq, Repr

/-- What a run leaves behind. -/
structure Outcome where
  host : Host
  err : Text := []
  ending : Ending

/-- What the handler in `main` prints. -/
def errorText (e : Exception) : Text := bytes ("Error: " ++ e.msg ++ "\n")

/-- The handler in `main`. -/
def caught (e : Exception) (host : Host) : Outcome where
  host := { host with out := host.out ++ errorText e }
  ending := .exited 1

/-- What `main` does once it knows where the log is. -/
def Machine.printLog (machine : Machine) (address size : UInt64) (clearBefore clearAfter : Bool)
    (host : Host) : Outcome :=
  match (machine.openLog address size >>= fun log ↦ main log clearBefore clearAfter) host with
  | .ok _ host' => { host := host', ending := .exited 0 }
  | .error e host' => caught e host'

/-- `main`.  The arguments are those behind the name of the program. -/
def program (machine : Machine) (prog : Text) (argv : List Text) (host : Host) : Outcome :=
  match parse prog argv {} with
  | .error (.exit status err) => { host, err, ending := .exited status }
  | .error (.exception e) => caught e host
  | .ok o =>
    let found :=
      if o.address = 0 then getAddressSizeFromDtb machine.fs .littleEndian else .ok (o.address, 0)
    match found with
    | .error (.exception e) => caught e host
    | .error .overread => { host, ending := .undefined }
    | .ok (address, size) => machine.printLog address size o.clearBefore o.clearAfter host

/-- The runs print the same and leave the same memory. -/
def Outcome.Agrees (o o' : Outcome) : Prop :=
  o.host.out = o'.host.out ∧ o.err = o'.err ∧ o.host.mem = o'.host.mem

/-! ## The two ways -/

/-- `-c` or `-C`. -/
def IsFlag (arg : Text) : Prop := arg = bytes "-c" ∨ arg = bytes "-C"

instance : DecidablePred IsFlag := fun _ ↦ inferInstanceAs (Decidable (_ ∨ _))

theorem parse_flags (prog : Text) {flags : List Text} (h : ∀ arg ∈ flags, IsFlag arg)
    (rest : List Text) (o : Options) :
    parse prog (flags ++ rest) o = parse prog rest
      { o with
        clearBefore := o.clearBefore || decide (bytes "-C" ∈ flags)
        clearAfter := o.clearAfter || decide (bytes "-c" ∈ flags) } := by
  induction flags generalizing o with
  | nil => simp
  | cons arg flags ih =>
    have hflags : ∀ arg ∈ flags, IsFlag arg := fun b hb ↦ h b (List.mem_cons_of_mem _ hb)
    have hdistinct : bytes "-c" ≠ bytes "-C" := by decide
    rcases h arg List.mem_cons_self with rfl | rfl
    · rw [List.cons_append, parse.eq_def]
      dsimp only
      rw [if_neg (by decide), if_pos rfl, ih hflags]
      simp [hdistinct.symm]
    · rw [List.cons_append, parse.eq_def]
      dsimp only
      rw [if_neg (by decide), if_neg (by decide), if_pos rfl, ih hflags]
      simp [hdistinct]

section

variable {machine : Machine} {prog text : Text} {address size : UInt64} {before after : List Text}
  {host : Host}

/-- A run without `--address` looks the log up. -/
theorem program_without (hflags : ∀ arg ∈ before ++ after, IsFlag arg)
    (hfound : getAddressSizeFromDtb machine.fs .littleEndian = .ok (address, size)) :
    program machine prog (before ++ after) host
      = machine.printLog address size (decide (bytes "-C" ∈ before ++ after))
        (decide (bytes "-c" ∈ before ++ after)) host := by
  have hparse := parse_flags prog hflags [] {}
  rw [List.append_nil] at hparse
  rw [program, hparse, parse]
  dsimp only
  rw [if_pos rfl, hfound, Bool.false_or, Bool.false_or]

/-- A run with it does not, and takes the size to be zero. -/
theorem program_with (hflags : ∀ arg ∈ before ++ after, IsFlag arg) {value : Int64}
    (hvalue : stol text = .ok value) (haddress : value.toUInt64 = address) (hpos : address ≠ 0) :
    program machine prog (before ++ bytes "--address" :: text :: after) host
      = machine.printLog address 0 (decide (bytes "-C" ∈ before ++ after))
        (decide (bytes "-c" ∈ before ++ after)) host := by
  have hbefore : ∀ arg ∈ before, IsFlag arg := fun b hb ↦ hflags b (List.mem_append_left _ hb)
  have hafter : ∀ arg ∈ after, IsFlag arg := fun b hb ↦ hflags b (List.mem_append_right _ hb)
  have hparse : parse prog (before ++ bytes "--address" :: text :: after) {} = .ok
      { address, clearBefore := decide (bytes "-C" ∈ before ++ after),
        clearAfter := decide (bytes "-c" ∈ before ++ after) } := by
    have hrest := parse_flags prog hafter []
    rw [List.append_nil] at hrest
    rw [parse_flags prog hbefore, parse, if_pos rfl]
    dsimp only
    rw [hvalue]
    dsimp only
    rw [hrest, parse, haddress]
    simp
  rw [program, hparse]
  dsimp only
  rw [if_neg hpos]

end

/-- What a run with `--address` says. -/
def Machine.addressError (machine : Machine) (address : UInt64) : Exception :=
  ⟨if machine.opens = false then "Failed to open device"
    else if machine.mapsWindow address 0 = false then "MMap failed" else "Read failed"⟩

theorem Log.readHeader_empty {log : Log} (h : log.size = 0) (host : Host) :
    log.readHeader host = .error ⟨"Read failed"⟩ host := by
  rw [readHeader, DevMem.read, h, if_pos (by decide)]
  rfl

/-- The first thing `main` does is to read the header. -/
theorem main_empty {log : Log} (h : log.size = 0) (clearBefore clearAfter : Bool) (host : Host) :
    main log clearBefore clearAfter host = .error ⟨"Read failed"⟩ host := by
  have hclear : log.clear host = .error ⟨"Read failed"⟩ host := by
    simp only [Log.clear, bind, EStateM.bind, Log.readHeader_empty h]
  have hprint : log.print host = .error ⟨"Read failed"⟩ host := by
    simp only [Log.print, bind, EStateM.bind, Log.readHeader_empty h]
  rcases clearBefore with _ | _
  · rw [main, if_neg Bool.false_ne_true]
    simp only [bind, EStateM.bind, hprint]
  · rw [main, if_pos rfl]
    simp only [bind, EStateM.bind, hclear]

theorem printLog_zero (machine : Machine) (address : UInt64) (clearBefore clearAfter : Bool)
    (host : Host) :
    machine.printLog address 0 clearBefore clearAfter host
      = caught (machine.addressError address) host := by
  rw [Machine.printLog, Machine.openLog, Machine.addressError]
  rcases machine.opens with _ | _
  · rfl
  · rcases machine.mapsWindow address 0 with _ | _
    · rfl
    · have hmain : main (machine.window address 0) clearBefore clearAfter host
          = .error ⟨"Read failed"⟩ host := main_empty rfl _ _ _
      simp only [Bool.true_eq_false, if_false, pure_bind, hmain]

theorem bytes_append (a b : String) : bytes (a ++ b) = bytes a ++ bytes b := by
  simp [bytes]

/-- The texts of the errors differ in their eighth character. -/
theorem errorText_ne (values : String) (machine : Machine) (address : UInt64) :
    errorText ⟨"Incorrect ring buffer values. size=" ++ values⟩
      ≠ errorText (machine.addressError address) := by
  intro heq
  have hring : (errorText ⟨"Incorrect ring buffer values. size=" ++ values⟩)[7]? = some 0x49 := by
    simp only [errorText, bytes_append, List.append_assoc]
    rfl
  have haddress : (errorText (machine.addressError address))[7]? ≠ some 0x49 := by
    rw [Machine.addressError]
    rcases machine.opens with _ | _
    · show (errorText ⟨"Failed to open device"⟩)[7]? ≠ some 0x49
      decide
    · rcases machine.mapsWindow address 0 with _ | _ <;> decide
  exact haddress (heq ▸ hring)

theorem errorText_ne_nil (e : Exception) : errorText e ≠ [] := by
  intro heq
  have hcons : (errorText e)[0]? = some 0x45 := by
    simp only [errorText, bytes_append, List.append_assoc]
    rfl
  rw [heq] at hcons
  exact absurd hcons (by decide)

/-- When a run with `--address` does what one without it does.  `/dev/mem` can not be opened, or the
window can be mapped with neither size, or what is pending in the log happens to be the message of
the run with `--address` and nothing is to be cleared. -/
def Machine.Coincides (machine : Machine) (address size : UInt64) (clears : Prop) (mem : Memory) :
    Prop :=
  machine.opens = false
    ∨ machine.mapsWindow address size = false ∧ machine.mapsWindow address 0 = false
    ∨ machine.mapsWindow address size = true ∧ ¬ clears
      ∧ (machine.window address size).RingSized mem
      ∧ (machine.window address size).pending mem = errorText (machine.addressError address)

section

variable {machine : Machine} {address size : UInt64} {clearBefore clearAfter : Bool} {host : Host}

theorem caught_agrees_iff {e : Exception} {o : Outcome} :
    (caught e host).Agrees o
      ↔ o.host.out = host.out ++ errorText e ∧ o.err = [] ∧ o.host.mem = host.mem := by
  rw [Outcome.Agrees]
  exact ⟨fun ⟨h, h', h''⟩ ↦ ⟨h.symm, h'.symm, h''.symm⟩,
    fun ⟨h, h', h''⟩ ↦ ⟨h.symm, h'.symm, h''.symm⟩⟩

/-- A run that gets as far as `main`'s work on the window. -/
theorem printLog_of_wp {P : Outcome → Prop} (hopens : machine.opens = true)
    (hmaps : machine.mapsWindow address size = true)
    (h : wp (main (machine.window address size) clearBefore clearAfter)
      (fun _ host' ↦ P { host := host', ending := .exited 0 }) (fun e host' ↦ P (caught e host'))
      host) : P (machine.printLog address size clearBefore clearAfter host) := by
  rw [Machine.printLog, Machine.openLog, hopens, hmaps]
  simp only [Bool.true_eq_false, if_false, pure_bind]
  rw [wp] at h
  rcases hmain : main (machine.window address size) clearBefore clearAfter host with ⟨_, host'⟩ | _
  · rwa [hmain] at h
  · rwa [hmain] at h

theorem toNat_pageOffset_lt (machine : Machine) (size : UInt64) (h : address.toNat < 2 ^ 63) :
    (machine.window address size).pageOffset.toNat < 2 ^ 63 := by
  show (address &&& machine.pageMask).toNat < 2 ^ 63
  rw [UInt64.toNat_and]
  exact Nat.lt_of_le_of_lt Nat.and_le_left h

/-- If `/dev/mem` can not be opened, both runs say so. -/
theorem agrees_of_not_opens (hopens : machine.opens = false) :
    (machine.printLog address 0 clearBefore clearAfter host).Agrees
      (machine.printLog address size clearBefore clearAfter host) := by
  have hsame : machine.printLog address size clearBefore clearAfter host
      = caught (machine.addressError address) host := by
    rw [Machine.printLog, Machine.openLog, Machine.addressError, hopens]
    rfl
  rw [printLog_zero, hsame]
  exact ⟨rfl, rfl, rfl⟩

/-- If the region can not be mapped, the other run has to fail in the same way. -/
theorem agrees_iff_of_not_maps (hopens : machine.opens = true)
    (hmaps : machine.mapsWindow address size = false) :
    (machine.printLog address 0 clearBefore clearAfter host).Agrees
        (machine.printLog address size clearBefore clearAfter host)
      ↔ machine.mapsWindow address 0 = false := by
  have hthrows : machine.printLog address size clearBefore clearAfter host
      = caught ⟨"MMap failed"⟩ host := by
    rw [Machine.printLog, Machine.openLog, hopens, hmaps]
    rfl
  rw [printLog_zero, hthrows, caught_agrees_iff, Machine.addressError, hopens, caught,
    List.append_cancel_left_eq]
  rcases machine.mapsWindow address 0 with _ | _
  · simp
  · have hne : errorText ⟨"MMap failed"⟩ ≠ errorText ⟨"Read failed"⟩ := by decide
    simp [hne]

/-- If it can, the log has to say what the other run says, and nothing may be cleared. -/
theorem agrees_iff_of_ringSized (hopens : machine.opens = true)
    (hmaps : machine.mapsWindow address size = true)
    (hoffset : (machine.window address size).pageOffset.toNat < 2 ^ 63)
    (hroom : (machine.window address size).HasRoom host.mem)
    (hsized : (machine.window address size).RingSized host.mem) :
    (machine.printLog address 0 clearBefore clearAfter host).Agrees
        (machine.printLog address size clearBefore clearAfter host)
      ↔ ¬ (clearBefore = true ∨ clearAfter = true)
        ∧ (machine.window address size).pending host.mem
          = errorText (machine.addressError address) := by
  rw [printLog_zero]
  rcases clearBefore with _ | _
  · refine printLog_of_wp (P := fun o ↦ (caught (machine.addressError address) host).Agrees o ↔ _)
      hopens hmaps ?_
    refine wp_mono (wp_main hoffset hroom hsized clearAfter) (fun _ host' h ↦ ?_)
      (fun _ _ he ↦ he.elim)
    obtain ⟨hout, hmem⟩ := h
    rw [caught_agrees_iff, hout, hmem, List.append_cancel_left_eq]
    constructor
    · rintro ⟨hpending, -, hsame⟩
      refine ⟨?_, hpending⟩
      rintro (hfalse | rfl)
      · exact Bool.false_ne_true hfalse
      · -- what has been printed is marked as read, which changes the memory
        refine Log.marked_ne ?_ hsame
        rw [hpending]
        exact errorText_ne_nil _
    · rintro ⟨hclears, hpending⟩
      exact ⟨hpending, rfl, if_neg fun h ↦ hclears (.inr h)⟩
  · refine printLog_of_wp (P := fun o ↦ (caught (machine.addressError address) host).Agrees o ↔ _)
      hopens hmaps ?_
    refine wp_mono (wp_main_clearBefore hoffset hroom hsized clearAfter) (fun _ host' hout ↦ ?_)
      (fun _ _ he ↦ he.elim)
    rw [caught_agrees_iff, hout]
    constructor
    · rintro ⟨hprinted, -⟩
      exact absurd (List.self_eq_append_right.1 hprinted) (errorText_ne_nil _)
    · rintro ⟨hclears, -⟩
      exact absurd (.inl rfl) hclears

/-- If the size of the ring is not accepted, the runs print different errors. -/
theorem not_agrees_of_not_ringSized (hopens : machine.opens = true)
    (hmaps : machine.mapsWindow address size = true)
    (hoffset : (machine.window address size).pageOffset.toNat < 2 ^ 63)
    (hroom : (machine.window address size).HasRoom host.mem)
    (hsized : ¬ (machine.window address size).RingSized host.mem) :
    ¬ (machine.printLog address 0 clearBefore clearAfter host).Agrees
      (machine.printLog address size clearBefore clearAfter host) := by
  rw [printLog_zero]
  refine printLog_of_wp (P := fun o ↦ ¬ (caught (machine.addressError address) host).Agrees o)
    hopens hmaps ?_
  refine wp_mono (wp_main_of_not hoffset hroom hsized clearBefore clearAfter)
    (fun _ _ h ↦ h.elim) (fun e host' h ↦ ?_)
  obtain ⟨hout, values, hmsg⟩ := h
  have he : e = ⟨"Incorrect ring buffer values. size=" ++ values⟩ := by rw [← hmsg]
  rw [caught_agrees_iff]
  rintro ⟨hprinted, -⟩
  rw [caught, hout, he] at hprinted
  exact errorText_ne values machine address (List.append_cancel_left hprinted)

theorem printLog_agrees_iff (hlt : address.toNat < 2 ^ 63)
    (hroom : (machine.window address size).HasRoom host.mem) :
    (machine.printLog address 0 clearBefore clearAfter host).Agrees
        (machine.printLog address size clearBefore clearAfter host)
      ↔ machine.Coincides address size (clearBefore = true ∨ clearAfter = true) host.mem := by
  have hoffset := toNat_pageOffset_lt machine size hlt
  rw [Machine.Coincides]
  rcases hopens : machine.opens with _ | _
  · simp [agrees_of_not_opens hopens]
  rcases hmaps : machine.mapsWindow address size with _ | _
  · simp [agrees_iff_of_not_maps hopens hmaps]
  by_cases hsized : (machine.window address size).RingSized host.mem
  · simp [agrees_iff_of_ringSized hopens hmaps hoffset hroom hsized, hsized]
  · simp [not_agrees_of_not_ringSized hopens hmaps hoffset hroom hsized, hsized]

end

/-- **When the two ways agree.**  Given the address that the device tree has for the log, the runs
print the same and leave the same memory exactly if `/dev/mem` can not be opened or mapped in either
of them, or if the log says what the run with `--address` says. -/
theorem program_agrees_iff (machine : Machine) (prog : Text) {address size : UInt64}
    (hfound : getAddressSizeFromDtb machine.fs .littleEndian = .ok (address, size))
    (hpos : 0 < address) (hlt : address.toNat < 2 ^ 63) {text : Text} {value : Int64}
    (hvalue : stol text = .ok value) (haddress : value.toUInt64 = address)
    (before after : List Text) (hflags : ∀ arg ∈ before ++ after, IsFlag arg) (host : Host)
    (hroom : (machine.window address size).HasRoom host.mem) :
    (program machine prog (before ++ bytes "--address" :: text :: after) host).Agrees
        (program machine prog (before ++ after) host)
      ↔ machine.Coincides address size (before ++ after ≠ []) host.mem := by
  have hclears : (decide (bytes "-C" ∈ before ++ after) = true
      ∨ decide (bytes "-c" ∈ before ++ after) = true) ↔ before ++ after ≠ [] := by
    rw [decide_eq_true_iff, decide_eq_true_iff]
    refine ⟨?_, ?_⟩
    · rintro (h | h) <;> exact List.ne_nil_of_mem h
    · intro h
      obtain ⟨arg, harg⟩ := List.exists_mem_of_ne_nil _ h
      rcases hflags arg harg with rfl | rfl
      · exact .inr harg
      · exact .inl harg
  rw [program_with hflags hvalue haddress (UInt64.ne_of_lt hpos).symm,
    program_without hflags hfound, printLog_agrees_iff hlt hroom, hclears]

/-- A device tree whose root has the log. -/
def logNode : Node where
  regions := [⟨bytes "print_queue", noNul_printQueue, 0x1000, 0x424⟩]
  addressCells := 2
  sizeCells := 2
  addressCells_eq := two_cells
  sizeCells_eq := two_cells
  fits := by decide

def logFiles : FileSystem where
  content p := [
    (⟨bytes "/sys/firmware/devicetree/base/compatible"⟩, compatibleFile),
    (⟨bytes "/sys/firmware/devicetree/base/reg-names"⟩, ⟨logNode.regNames, by decide⟩),
    (⟨bytes "/sys/firmware/devicetree/base/reg"⟩, (⟨logNode.reg, by decide⟩ : Content))].lookup p
  list p :=
    if p = ⟨bytes "/sys/firmware/devicetree/base"⟩ then some [⟨bytes "compatible", false⟩] else none
  height _ := 0
  height_lt {path entries dentry} hlist hmem hdescends := by
    split at hlist
    · rw [← Option.some.inj hlist, List.mem_singleton] at hmem
      rw [hmem] at hdescends
      exact absurd hdescends.2.2 Bool.false_ne_true
    · exact absurd hlist (by simp)

def logMachine : Machine where
  fs := logFiles
  pageSize := 4096
  opens := true
  -- nothing can not be mapped
  maps length _ := decide (length ≠ 0)

/-- A log of 1024 bytes to which nothing has been written. -/
def emptyLog : Host where
  mem a := if a = 0x1001 then 4 else 0

theorem logFiles_found : getAddressSizeFromDtb logFiles .littleEndian = .ok (0x1000, 0x424) := by
  decide +kernel

theorem emptyLog_hasRoom : (logMachine.window 0x1000 0x424).HasRoom emptyLog.mem :=
  ⟨by decide, fun _ ↦ by decide +kernel⟩

/-- Marking as read at the end, with the address before or after the flag. -/
theorem emptyLog_agrees_iff :
    (program logMachine [] [bytes "-c", bytes "--address", bytes "0x1000"] emptyLog).Agrees
        (program logMachine [] [bytes "-c"] emptyLog)
      ↔ logMachine.Coincides 0x1000 0x424 ([bytes "-c"] ≠ []) emptyLog.mem := by
  have hvalue : stol (bytes "0x1000") = .ok 0x1000 := by decide
  exact program_agrees_iff logMachine [] logFiles_found (by decide) (by decide) hvalue rfl
    [bytes "-c"] [] (by decide) emptyLog emptyLog_hasRoom

/-- The log is empty, and a run without `--address` prints nothing; one with it says that it can not
map a window of no bytes. -/
theorem address_option_fails :
    getAddressSizeFromDtb logMachine.fs .littleEndian = .ok (0x1000, 0x424)
      ∧ stol (bytes "0x1000") = .ok 0x1000
      ∧ (logMachine.window 0x1000 0x424).HasRoom emptyLog.mem
      ∧ (program logMachine [] [] emptyLog).host.out = []
      ∧ (program logMachine [] [bytes "--address", bytes "0x1000"] emptyLog).host.out
        = bytes "Error: MMap failed\n"
      ∧ ¬ (program logMachine [] [bytes "--address", bytes "0x1000"] emptyLog).Agrees
        (program logMachine [] [] emptyLog) := by
  have hout : (program logMachine [] [] emptyLog).host.out = [] := by decide +kernel
  have hout' : (program logMachine [] [bytes "--address", bytes "0x1000"] emptyLog).host.out
      = bytes "Error: MMap failed\n" := by decide +kernel
  refine ⟨logFiles_found, by decide, emptyLog_hasRoom, hout, hout', ?_⟩
  rintro ⟨hsame, -⟩
  rw [hout, hout'] at hsame
  exact absurd hsame (by decide)

end EthosuLogd

end EthosU
