import Color.ReplayFit
import Color.CallOrder
import Color.Reprocessing
import Color.ResponseAgreement
import Color.Progress
import Color.Window
import Color.Drain
import Color.HashStep
import Color.HashErasure
import Color.DeliveryOrder
import Color.JsonRoundTrip
import Color.RestoredServer
import Color.HeldRequests
import Color.RecoveryRound
import Color.ReplayOverlap
import Color.RejectedReplay
import Color.RequestObjects
import Color.ReplaySize
import Color.CommitReports
import Color.SendLoop
import Color.JsonTruncation
import Color.JsonVariants
import Color.JsonAcceptance
import Color.DecoderBounds
import Color.HarnessVerdict
import Color.HarnessLiveness
import Color.HarnessFailover
import Color.ThreadPool
import Color.DeploymentProgress
