import AudioProc.Machine
import AudioProc.Ewma
import AudioProc.RunningMax
import AudioProc.CircularBuffer
import AudioProc.Estimators
import AudioProc.RtcHistogram
import AudioProc.AudioUtil
import AudioProc.Refinement
import AudioProc.Correlation
import AudioProc.History
import AudioProc.Pairing
import AudioProc.Batch
import AudioProc.DelayedEcho
import AudioProc.Gain
import AudioProc.Stabilise
import AudioProc.Drift
import AudioProc.Jitter
import AudioProc.Restart
import AudioProc.CFile
import AudioProc.Loop
import AudioProc.WavReader
import AudioProc.Main
import AudioProc.Flush
import AudioProc.EstimatorRuns
import AudioProc.CappedBag
import AudioProc.HistogramRuns
import AudioProc.Binary32
import AudioProc.DelayLoop
import AudioProc.LittleEndian
import AudioProc.RiffFormat
import AudioProc.RiffWalk
import AudioProc.MalformedRiff
import AudioProc.WaveFile
import AudioProc.PadByte
import AudioProc.OutFile
import AudioProc.WavWriter
import AudioProc.RoundTrip
import AudioProc.Rounding
import AudioProc.SampleConversion
import AudioProc.Requests
import AudioProc.CString
import AudioProc.ApmDataDumper
import AudioProc.TrailingBytes
import AudioProc.Decimal
import AudioProc.Disk
import AudioProc.DebugSignals
import AudioProc.DetectorProgram
import AudioProc.DumpFiles
import AudioProc.ReportFiles
import AudioProc.PairedFrames
import AudioProc.RenderAccounting
import AudioProc.HeaderOrigin
import AudioProc.ExactLikelihood
import AudioProc.QuietSignals
import AudioProc.Channels
import AudioProc.CutFiles
import AudioProc.AppendedFiles
import AudioProc.Recordings
import AudioProc.Merging
import AudioProc.Forgetting
import AudioProc.BadSamples
import AudioProc.Binary32Conversions
import AudioProc.ReliabilityForTest
