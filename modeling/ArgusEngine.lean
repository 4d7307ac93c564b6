import ArgusEngine.Kv.Attention
import ArgusEngine.Kv.Gather
import ArgusEngine.Kv.Holes
import ArgusEngine.Kv.Ledger
import ArgusEngine.Kv.Mirror
import ArgusEngine.Kv.ModelHandle
import ArgusEngine.Kv.QuantGpuFailures
import ArgusEngine.Kv.QuantRefine
import ArgusEngine.Kv.Refine
import ArgusEngine.Kv.Select
import ArgusEngine.Kv.PrefetchHistory
import ArgusEngine.Resilience.Transport
import ArgusEngine.Auf.Alignment
import ArgusEngine.Auf.StripPreserves
import ArgusEngine.Session.Answers
import ArgusEngine.Session.LogicalLen
import ArgusEngine.Layers.TpSafety
import ArgusEngine.Techniques.Accepted
import ArgusEngine.Auf.Q4Soa
import ArgusEngine.Loader.Convert
import ArgusEngine.Loader.AufInside
import ArgusEngine.Loader.GgufTotal
import ArgusEngine.Kv.DecodeOffsets
import ArgusEngine.Kv.Snapshot
import ArgusEngine.Kv.Pages
import ArgusEngine.Kv.Migrate
import ArgusEngine.Kv.RecallFaults
import ArgusEngine.Kv.Merges
import ArgusEngine.Session.PrefixRoundTrip
import ArgusEngine.Kv.Carry
import ArgusEngine.Loader.QkRows
import ArgusEngine.Auf.BuildIndex
import ArgusEngine.Kv.DiskFaults
import ArgusEngine.Format.RoundTrip
import ArgusEngine.Kv.QRows
import ArgusEngine.Techniques.Quest
import ArgusEngine.Techniques.D2o
import ArgusEngine.Layers.HeadRange
import ArgusEngine.Loader.PreservesModel
import ArgusEngine.Techniques.Selects
import ArgusEngine.Techniques.PrefillSeed
import ArgusEngine.Layers.TpConverges
import ArgusEngine.Attn.Ragged
import ArgusEngine.Threads.DispatchReturns
import ArgusEngine.Session.DecodeAnswers
import ArgusEngine.Session.DecodeTrace
import ArgusEngine.Forward.Runs
import ArgusEngine.Layers.HeadRangeRun
