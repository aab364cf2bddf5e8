import EthosU.EthosuLogd.DeviceTree

/-!
# The search of the device tree

`getAddressSizeFromDtb` walks the device tree for nodes of the Ethos-U and looks up `print_queue` in
the first one it meets.  This file compares that with what it is for: to find the queue of such a
node, if there is one.

* `FileSystem.Below` are the directories of a tree, and `FileSystem.holders` those with an entry of
  a given name, in the order of the walk.  `Path.find_eq` says that the walk finds them all.
* `FileSystem.IsEthosU` are the nodes of the Ethos-U, and `FileSystem.HasQueue` those with a queue.
* `getAddressSizeFromDtb_complete_iff`: the search does what it is for exactly if no node has a
  queue, or the first node of the Ethos-U in the order of the walk has one.
-/

set_option autoImplicit false

namespace EthosU

namespace EthosuLogd

open Bytes

namespace FileSystem

variable (fs : FileSystem)

/-! ## Directory trees -/

/-- The directories that a walk from `path` enters. -/
inductive Below (path : Path) : Path → Prop
  | here : Below path path
  | step {d : Path} {entries : List Dirent} {dentry : Dirent} (hbelow : Below path d)
      (hlist : fs.list d = some entries) (hmem : dentry ∈ entries) (hdescends : dentry.Descends) :
      Below path (d / dentry.dName)

/-- A directory has an entry with a name. -/
def HasEntry (d : Path) (name : Text) : Prop :=
  ∃ entries, fs.list d = some entries ∧ ∃ dentry ∈ entries, dentry.dName = name

/-- The directories with an entry `name`, in the order in which a walk from `path` gets to them. -/
def holders (name : Text) (path : Path) : List Path :=
  match _ : fs.list path with
  | none => []
  | some entries => entries.attach.flatMap fun ⟨dentry, _⟩ ↦
      (if dentry.dName = name then [path] else [])
        ++ if _ : dentry.Descends then holders name (path / dentry.dName) else []
termination_by fs.height path
decreasing_by exact fs.height_lt ‹_› ‹_› ‹_›

variable {fs}

/-- What is below a subdirectory is below the directory. -/
theorem Below.of_entry {path d : Path} {entries : List Dirent} {dentry : Dirent}
    (hlist : fs.list path = some entries) (hmem : dentry ∈ entries) (hdescends : dentry.Descends)
    (hbelow : fs.Below (path / dentry.dName) d) : fs.Below path d := by
  induction hbelow with
  | here => exact .step .here hlist hmem hdescends
  | step _ hlist' hmem' hdescends' ih => exact .step ih hlist' hmem' hdescends'

/-- A directory below another one is that one, or it is below one of its subdirectories. -/
theorem Below.cases_entry {path d : Path} (hbelow : fs.Below path d) :
    d = path ∨ ∃ entries, fs.list path = some entries ∧ ∃ dentry ∈ entries, dentry.Descends
      ∧ fs.Below (path / dentry.dName) d := by
  induction hbelow with
  | here => exact .inl rfl
  | @step d entries dentry _ hlist hmem hdescends ih =>
    rcases ih with rfl | ⟨entries', hlist', dentry', hmem', hdescends', hbelow'⟩
    · exact .inr ⟨entries, hlist, dentry, hmem, hdescends, .here⟩
    · exact .inr ⟨entries', hlist', dentry', hmem', hdescends', .step hbelow' hlist hmem hdescends⟩

/-- The walk gets to every directory that has an entry with the name, and to no other one. -/
theorem mem_holders_iff (name : Text) {path d : Path} :
    d ∈ fs.holders name path ↔ fs.Below path d ∧ fs.HasEntry d name := by
  fun_induction fs.holders name path with
  | case1 path hlist =>
    refine ⟨fun h ↦ absurd h List.not_mem_nil, fun ⟨hbelow, entries, hentries, _⟩ ↦ ?_⟩
    rcases hbelow.cases_entry with rfl | ⟨entries', hentries', -⟩
    · rw [hlist] at hentries
      cases hentries
    · rw [hlist] at hentries'
      cases hentries'
  | case2 path entries hlist ih =>
    rw [List.mem_flatMap]
    constructor
    · rintro ⟨⟨dentry, hmem⟩, -, hd⟩
      rcases List.mem_append.1 hd with hhere | hbelow
      · split at hhere
        · rename_i hname
          rw [List.mem_singleton.1 hhere]
          exact ⟨.here, entries, hlist, dentry, hmem, hname⟩
        · cases hhere
      · split at hbelow
        · rename_i hdescends
          obtain ⟨hbelow, hentry⟩ := (ih dentry hmem hdescends).1 hbelow
          exact ⟨.of_entry hlist hmem hdescends hbelow, hentry⟩
        · cases hbelow
    · rintro ⟨hbelow, hentry⟩
      rcases hbelow.cases_entry with rfl | ⟨entries', hlist', dentry, hmem, hdescends, hbelow⟩
      · obtain ⟨entries', hlist', dentry, hmem, hname⟩ := hentry
        rw [hlist] at hlist'
        cases hlist'
        refine ⟨⟨dentry, hmem⟩, List.mem_attach _ _, List.mem_append_left _ ?_⟩
        rw [if_pos hname]
        exact List.mem_singleton_self _
      · rw [hlist] at hlist'
        cases hlist'
        refine ⟨⟨dentry, hmem⟩, List.mem_attach _ _, List.mem_append_right _ ?_⟩
        rw [dif_pos hdescends]
        exact (ih dentry hmem hdescends).2 ⟨hbelow, hentry⟩

end FileSystem

namespace Path

variable {fs : FileSystem} {name : Text} {path : Path}

/-- **`find` finds all entries with a name**, if all directories can be opened. -/
theorem find_eq (hopens : ∀ d, fs.Below path d → (fs.list d).isSome) :
    Path.find fs path name = .ok ((fs.holders name path).map (· / name)) := by
  fun_induction Path.find fs path name with
  | case1 path hlist =>
    have hsome := hopens path .here
    rw [hlist] at hsome
    cases hsome
  | case2 path entries hlist ih =>
    have hentry : ∀ x ∈ entries.attach, (do
        let pathname := path / x.1.dName
        let here := if x.1.dName = name then [pathname] else []
        if _ : x.1.Descends then do
          let below ← pathname.find fs name
          pure (here ++ below)
        else
          pure here : Except Failure (List Path))
        = .ok ((if x.1.dName = name then [path / name] else [])
          ++ if x.1.Descends then (fs.holders name (path / x.1.dName)).map (· / name) else []) := by
      rintro ⟨dentry, hmem⟩ -
      have hhere : (if dentry.dName = name then [path / dentry.dName] else [])
          = if dentry.dName = name then [path / name] else [] := by
        split
        · rename_i hname
          rw [hname]
        · rfl
      dsimp only
      rw [hhere]
      by_cases hdescends : dentry.Descends
      · rw [dif_pos hdescends, if_pos hdescends, ih dentry hmem hdescends
          fun d hd ↦ hopens d (.of_entry hlist hmem hdescends hd)]
        rfl
      · rw [dif_neg hdescends, if_neg hdescends, List.append_nil]
        rfl
    refine (congrArg (· >>= fun files ↦ pure files.flatten) (Fallible.mapM_ok hentry)).trans ?_
    have hholders : fs.holders name path = entries.attach.flatMap fun x ↦
        (if x.1.dName = name then [path] else [])
          ++ if x.1.Descends then fs.holders name (path / x.1.dName) else [] := by
      rw [FileSystem.holders]
      split
      · rename_i hnone
        rw [hlist] at hnone
        cases hnone
      · rename_i entries' hlist'
        rw [hlist] at hlist'
        cases hlist'
        rfl
    rw [hholders, List.map_flatMap]
    refine congrArg Except.ok ?_
    rw [← List.flatMap_def]
    refine List.flatMap_congr fun x _ ↦ ?_
    rw [List.map_append]
    split <;> split <;> rfl

/-- The directory of a file. -/
theorem parent_div (d : Path) {file : Text} (hslash : 0x2f ∉ file) : (d / file).parent = d := by
  have hfirst : file.take 1 ≠ bytes "/" := by
    rcases file with _ | ⟨c, file⟩
    · decide
    · intro heq
      have hc : c = 0x2f := (List.cons.inj heq).1
      exact hslash (hc ▸ List.mem_cons_self)
  have hpath : (d / file).path = d.path ++ 0x2f :: file := by
    rw [div_eq hfirst, List.append_assoc]
    rfl
  have hbehind : (d / file).path.reverse.idxOf 0x2f = file.length := by
    have hreverse : (0x2f : UInt8) ∉ file.reverse := fun h ↦ hslash (List.mem_reverse.1 h)
    rw [hpath, List.reverse_append, List.reverse_cons, List.append_assoc,
      List.idxOf_append_of_notMem hreverse, List.length_reverse, List.singleton_append,
      List.idxOf_cons_self, Nat.add_zero]
  have hlength : (d / file).path.length = d.path.length + (file.length + 1) := by
    rw [hpath, List.length_append, List.length_cons]
  have htake : (d / file).path.length - 1 - file.length = d.path.length := by omega
  rw [parent, hbehind, if_pos (by omega), htake, hpath, List.take_left]

end Path

/-! ## What the search is for -/

/-- The file system path to the device tree. -/
def devtree : Path := ⟨bytes "/sys/firmware/devicetree/base"⟩

namespace FileSystem

variable (fs : FileSystem)

/-- A directory of the device tree is a node of the Ethos-U: it has a file `compatible`, and
`arm,ethosu` occurs in it. -/
structure IsEthosU (d : Path) : Prop where
  below : fs.Below devtree d
  compatible : fs.HasEntry d (bytes "compatible")
  ethosu : grep fs (d / bytes "compatible") (bytes "arm,ethosu") = true

/-- The register regions of a node include a queue. -/
def HasQueue (d : Path) (region : UInt64 × UInt64) : Prop :=
  ∃ node : Node, node.WrittenTo fs d
    ∧ (node.find (bytes "print_queue")).map (fun r ↦ (r.address, r.size)) = some region

/-- The files of a directory describe a node, or there is no list of regions. -/
def WellFormed (d : Path) : Prop :=
  fs.content (d / bytes "reg-names") = none ∨ ∃ node : Node, node.WrittenTo fs d

/-- The first node of the Ethos-U in the order of the walk. -/
def firstEthosU : Option Path :=
  (fs.holders (bytes "compatible") devtree).find? fun d ↦
    grep fs (d / bytes "compatible") (bytes "arm,ethosu")

/-- The search returns the queue of a node of the Ethos-U, and throws only if none has one. -/
def SearchComplete : Prop :=
  match getAddressSizeFromDtb fs .littleEndian with
  | .ok region => ∃ d, fs.IsEthosU d ∧ fs.HasQueue d region
  | .error (.exception _) => ¬ ∃ d region, fs.IsEthosU d ∧ fs.HasQueue d region
  | .error .overread => False

variable {fs}

/-- The nodes of the Ethos-U are those that the walk gets to. -/
theorem isEthosU_iff {d : Path} :
    fs.IsEthosU d ↔ d ∈ fs.holders (bytes "compatible") devtree
      ∧ grep fs (d / bytes "compatible") (bytes "arm,ethosu") = true := by
  rw [mem_holders_iff]
  exact ⟨fun ⟨hbelow, hentry, hgrep⟩ ↦ ⟨⟨hbelow, hentry⟩, hgrep⟩,
    fun ⟨⟨hbelow, hentry⟩, hgrep⟩ ↦ ⟨hbelow, hentry, hgrep⟩⟩

theorem Below.absolute {path d : Path} (hbelow : fs.Below path d) (h : path.Absolute) :
    d.Absolute := by
  induction hbelow with
  | here => exact h
  | @step d _ dentry _ _ _ _ ih =>
    by_cases hslash : dentry.dName.take 1 = bytes "/"
    · rw [show d / dentry.dName = ⟨dentry.dName⟩ from if_pos hslash]
      exact hslash
    · exact ih.div hslash

end FileSystem

/-- The loop looks up the queue of the first node of the Ethos-U. -/
theorem getAddressSizeFrom_map (fs : FileSystem) (order : ByteOrder) (ds : List Path) :
    getAddressSizeFrom fs order (ds.map (· / bytes "compatible"))
      = match ds.find? fun d ↦ grep fs (d / bytes "compatible") (bytes "arm,ethosu") with
        | some d => DTS.getRegByName fs order ⟨d⟩ (bytes "print_queue")
        | none => .error (.exception
            ⟨"Could not find Ethos-U device tree entry with reg-name 'print_queue'"⟩) := by
  induction ds with
  | nil => rfl
  | cons d ds ih =>
    rw [List.map_cons, getAddressSizeFrom]
    by_cases hgrep : grep fs (d / bytes "compatible") (bytes "arm,ethosu") = true
    · rw [if_pos hgrep, List.find?_cons, hgrep, Path.parent_div d (by decide)]
    · rw [if_neg hgrep, List.find?_cons, Bool.eq_false_of_not_eq_true hgrep, ih]

section

variable {fs : FileSystem}

/-- A lookup in a node gets the queue, or throws if there is none. -/
theorem getRegByName_queue {d : Path} (habs : d.Absolute) (hwell : fs.WellFormed d) :
    (∃ region, fs.HasQueue d region
        ∧ DTS.getRegByName fs .littleEndian ⟨d⟩ (bytes "print_queue") = .ok region)
      ∨ (¬ ∃ region, fs.HasQueue d region)
        ∧ ∃ e, DTS.getRegByName fs .littleEndian ⟨d⟩ (bytes "print_queue")
          = .error (.exception e) := by
  have hget := fun (node : Node) (hwritten : node.WrittenTo fs d) ↦
    DTS.getRegByName_written habs hwritten (bytes "print_queue")
  rcases hwell with hnone | ⟨node, hwritten⟩
  · have hfails : DTS.getRegByName fs .littleEndian ⟨d⟩ (bytes "print_queue")
        = .error (.exception ⟨"Failed to find 'reg-name' " ++ shown (bytes "print_queue")⟩) := by
      rw [DTS.getRegByName, DTS.getString, DTS.getProperty, FileSystem.slurp, hnone,
        Terminated.pieces_nil]
      rfl
    refine .inr ⟨?_, _, hfails⟩
    rintro ⟨region, node, hwritten, -⟩
    have hnames := hwritten.regNames
    rw [hnone] at hnames
    cases hnames
  · have hthis := hget node hwritten
    rcases hfind : node.find (bytes "print_queue") with _ | r
    · rw [hfind] at hthis
      refine .inr ⟨?_, _, hthis⟩
      rintro ⟨region, node', hwritten', hregion⟩
      obtain ⟨r, hfind', -⟩ := Option.map_eq_some_iff.1 hregion
      -- the lookup can not both return and throw
      have hthat := hget node' hwritten'
      rw [hfind', hthis] at hthat
      cases hthat
    · rw [hfind] at hthis
      refine .inl ⟨(r.address, r.size), ⟨node, hwritten, ?_⟩, hthis⟩
      rw [hfind]
      rfl

/-- **When the search is complete.**  If all directories can be opened and the files of all nodes
are well formed, the search does what it is for exactly if no node of the Ethos-U has a queue, or
the first one in the order of the walk does. -/
theorem getAddressSizeFromDtb_complete_iff (hopens : ∀ d, fs.Below devtree d → (fs.list d).isSome)
    (hwell : ∀ d, fs.Below devtree d → fs.WellFormed d) :
    fs.SearchComplete ↔ (¬ ∃ d region, fs.IsEthosU d ∧ fs.HasQueue d region)
      ∨ ∃ d region, fs.firstEthosU = some d ∧ fs.HasQueue d region := by
  have hrun : getAddressSizeFromDtb fs .littleEndian
      = match fs.firstEthosU with
        | some d => DTS.getRegByName fs .littleEndian ⟨d⟩ (bytes "print_queue")
        | none => .error (.exception
            ⟨"Could not find Ethos-U device tree entry with reg-name 'print_queue'"⟩) := by
    have hfind : Path.find fs devtree (bytes "compatible") = _ := Path.find_eq hopens
    rw [FileSystem.firstEthosU, ← getAddressSizeFrom_map]
    show (Path.find fs devtree (bytes "compatible") >>= getAddressSizeFrom fs .littleEndian) = _
    rw [hfind]
    rfl
  rw [FileSystem.SearchComplete, hrun]
  rcases hfirst : fs.firstEthosU with _ | d
  · have hnone : ¬ ∃ d region, fs.IsEthosU d ∧ fs.HasQueue d region := by
      rintro ⟨d, region, hethosU, -⟩
      obtain ⟨hholder, hgrep⟩ := FileSystem.isEthosU_iff.1 hethosU
      exact absurd hgrep (List.find?_eq_none.1 hfirst d hholder)
    exact ⟨fun _ ↦ .inl hnone, fun _ ↦ hnone⟩
  · have hgrep : grep fs (d / bytes "compatible") (bytes "arm,ethosu") = true := by
      rw [FileSystem.firstEthosU] at hfirst
      simpa using List.find?_some hfirst
    have hethosU : fs.IsEthosU d :=
      FileSystem.isEthosU_iff.2 ⟨List.mem_of_find?_eq_some hfirst, hgrep⟩
    have habs : d.Absolute := hethosU.below.absolute rfl
    rcases getRegByName_queue habs (hwell d hethosU.below)
      with ⟨region, hqueue, hget⟩ | ⟨hno, e, hget⟩
    · simp only [hget]
      exact ⟨fun _ ↦ .inr ⟨d, region, rfl, hqueue⟩, fun _ ↦ ⟨d, hethosU, hqueue⟩⟩
    · simp only [hget]
      refine ⟨.inl, ?_⟩
      rintro (hnone | ⟨d', region, hd, hqueue⟩)
      · exact hnone
      · cases hd
        exact absurd ⟨region, hqueue⟩ hno

end

/-- Two nodes of the Ethos-U, of which `readdir` lists the one without a queue first. -/
def twoNodes : FileSystem where
  content p := [
    (devtree / bytes "a" / bytes "compatible", compatibleFile),
    (devtree / bytes "b" / bytes "compatible", compatibleFile),
    (devtree / bytes "b" / bytes "reg-names", regNamesFile),
    (devtree / bytes "b" / bytes "reg", regFile),
    (devtree / bytes "b" / bytes "#address-cells", addressCellsFile)].lookup p
  list p :=
    if p = devtree then some [⟨bytes "a", true⟩, ⟨bytes "b", true⟩]
    else if p = devtree / bytes "a" ∨ p = devtree / bytes "b" then
      some [⟨bytes "compatible", false⟩]
    else none
  height p := if p = devtree then 1 else 0
  height_lt {path entries dentry} hlist hmem hdescends := by
    split at hlist
    · rename_i hroot
      rw [← Option.some.inj hlist] at hmem
      rw [if_pos hroot, hroot]
      simp only [List.mem_cons, List.not_mem_nil, or_false] at hmem
      rcases hmem with rfl | rfl <;> decide
    · split at hlist
      · rw [← Option.some.inj hlist, List.mem_singleton] at hmem
        rw [hmem] at hdescends
        exact absurd hdescends.2.2 Bool.false_ne_true
      · cases hlist

theorem twoNodes_below {d : Path} (h : twoNodes.Below devtree d) :
    d = devtree ∨ d = devtree / bytes "a" ∨ d = devtree / bytes "b" := by
  induction h with
  | here => exact .inl rfl
  | step _ hlist hmem hdescends ih =>
    rcases ih with rfl | rfl | rfl
    · cases hlist
      simp only [List.mem_cons, List.not_mem_nil, or_false] at hmem
      rcases hmem with rfl | rfl
      · exact .inr (.inl rfl)
      · exact .inr (.inr rfl)
    all_goals
      cases hlist
      rw [List.mem_singleton] at hmem
      rw [hmem] at hdescends
      exact absurd hdescends.2.2 Bool.false_ne_true

theorem twoNodes_opens {d : Path} (h : twoNodes.Below devtree d) : (twoNodes.list d).isSome := by
  rcases twoNodes_below h with rfl | rfl | rfl <;> rfl

theorem twoNodes_written : twoRegions.WrittenTo twoNodes (devtree / bytes "b") :=
  ⟨by decide, by decide, rfl, rfl⟩

theorem twoNodes_wellFormed {d : Path} (h : twoNodes.Below devtree d) : twoNodes.WellFormed d := by
  rcases twoNodes_below h with rfl | rfl | rfl
  · exact .inl (by decide)
  · exact .inl (by decide)
  · exact .inr ⟨_, twoNodes_written⟩

theorem twoNodes_complete_iff :
    twoNodes.SearchComplete ↔ (¬ ∃ d region, twoNodes.IsEthosU d ∧ twoNodes.HasQueue d region)
      ∨ ∃ d region, twoNodes.firstEthosU = some d ∧ twoNodes.HasQueue d region :=
  getAddressSizeFromDtb_complete_iff (fun _ ↦ twoNodes_opens) fun _ ↦ twoNodes_wellFormed

/-- The search gives up at the first node, although the second one has a queue. -/
theorem twoNodes_not_complete :
    (∀ d, twoNodes.Below devtree d → (twoNodes.list d).isSome)
      ∧ (∀ d, twoNodes.Below devtree d → twoNodes.WellFormed d) ∧ ¬ twoNodes.SearchComplete := by
  have hthrows : getAddressSizeFromDtb twoNodes .littleEndian
      = .error (.exception ⟨"Failed to find 'reg-name' print_queue"⟩) := by decide +kernel
  have hethosU : twoNodes.IsEthosU (devtree / bytes "b") := by
    refine ⟨?_, ⟨_, rfl, _, List.mem_cons_self, rfl⟩, by decide +kernel⟩
    have hentry : (⟨bytes "b", true⟩ : Dirent) ∈ [⟨bytes "a", true⟩, ⟨bytes "b", true⟩] := by simp
    exact .step .here rfl hentry (by decide)
  refine ⟨fun _ ↦ twoNodes_opens, fun _ ↦ twoNodes_wellFormed, fun hcomplete ↦ ?_⟩
  rw [FileSystem.SearchComplete, hthrows] at hcomplete
  exact hcomplete ⟨_, _, hethosU, _, twoNodes_written, rfl⟩

end EthosuLogd

end EthosU
