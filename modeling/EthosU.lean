import EthosU.DriverLibrary.Interpreter
import EthosU.DriverLibrary.SemanticVersion
import EthosU.Request
import EthosU.Uninitialised
import EthosU.InFlight
import EthosU.Ownership
import EthosU.Interpreters
import EthosU.TensorPointers
import EthosU.NetworkInformation
import EthosU.CallOrder
import EthosU.EthosuLogd.Program
import EthosU.EthosuLogd.MalformedNode
import EthosU.EthosuLogd.Search
import EthosU.EthosuLogd.Printing
import EthosU.EthosuLogd.HostOrder
import EthosU.EthosuLogd.BoundedWindow
import EthosU.EthosuLogd.Readers
import EthosU.EthosuLogd.Bytewise
import EthosU.InferenceRunner.PrePostProcessing
import EthosU.InferenceRunner.Orientation
import EthosU.InferenceRunner.Staging
import EthosU.InferenceRunner.NearestNeighbour
import EthosU.InferenceRunner.TensorLayout
import EthosU.InferenceRunner.Conversion
import EthosU.InferenceRunner.PostProcessing
import EthosU.InferenceRunner.WaitLoop
import EthosU.InferenceRunner.InferenceRunner
import EthosU.InferenceRunner.Lifetimes
import EthosU.InferenceRunner.Commands
import EthosU.InferenceRunner.Feeding
import EthosU.InferenceRunner.InterpreterRunner
import EthosU.Loading
import EthosU.CommandLine
import EthosU.Python.InterpreterWrapper
import EthosU.Python.Sessions
