import FlorenceServer.Lib.Runs
import FlorenceServer.Lib.Fallible
import FlorenceServer.Lib.RecentSelection
import FlorenceServer.Lib.TextLines
import FlorenceServer.Types.TaskSpec
import FlorenceServer.Types.JobRecord
import FlorenceServer.Types.Config
import FlorenceServer.State
import FlorenceServer.Jobs.Store
import FlorenceServer.Jobs.Queue
import FlorenceServer.Jobs.Quiescence
import FlorenceServer.Jobs.QueueOrder
import FlorenceServer.Jobs.Webhook
import FlorenceServer.Api.Submit
import FlorenceServer.Jobs.Server
import FlorenceServer.Jobs.Enqueue
import FlorenceServer.Jobs.Worker
import FlorenceServer.Jobs.Lifecycle
import FlorenceServer.Jobs.Tracking
import FlorenceServer.Jobs.Ordering
import FlorenceServer.Jobs.Retention
import FlorenceServer.Jobs.Abandoned
import FlorenceServer.Jobs.Restarts
import FlorenceServer.Jobs.RecordText
import FlorenceServer.Jobs.Durability
import FlorenceServer.Jobs.Duties
import FlorenceServer.Jobs.TornLog
import FlorenceServer.Jobs.StableRestart
import FlorenceServer.Inference.OcrRegions
import FlorenceServer.Api.Security
import FlorenceServer.Api.Images
import FlorenceServer.Api.Uploads
import FlorenceServer.Api.UploadFiles
import FlorenceServer.Api.RejectedUploads
import FlorenceServer.Jobs.ImageCleanup
import FlorenceServer.Api.Validation
import FlorenceServer.Jobs.JobMetrics
import FlorenceServer.Inference.Sessions
import FlorenceServer.State.RateWindow
import FlorenceServer.Lib.Trimming
import FlorenceServer.Api.ApiKeyGate
import FlorenceServer.Types.Settings
import FlorenceServer.Api.ConfiguredKeys
import FlorenceServer.Jobs.WebhookTranscript
import FlorenceServer.Jobs.Newest
import FlorenceServer.Lib.Extremes
import FlorenceServer.Inference.OcrBoxes
import FlorenceServer.Inference.Tensor
import FlorenceServer.Lib.TokenRemoval
import FlorenceServer.Inference.CleanText
import FlorenceServer.Inference.Decoding
import FlorenceServer.Inference.DecoderGraphs
import FlorenceServer.Inference.CachedDecoding
import FlorenceServer.Inference.GeneratedTokens
import FlorenceServer.Types.CanonicalTask
import FlorenceServer.Inference.TaskPlan
import FlorenceServer.Jobs.TaskFields
import FlorenceServer.Inference.OcrCursors
import FlorenceServer.Lib.Buffers
import FlorenceServer.Lib.FileTree
import FlorenceServer.Api.LocalPaths
import FlorenceServer.Inference.ImageLayout
import FlorenceServer.Types.ModelVariant
import FlorenceServer.Inference.Generations
import FlorenceServer.Inference.Infer
import FlorenceServer.Jobs.Answers
import FlorenceServer.Lib.Numerals
import FlorenceServer.Types.FileConfig
import FlorenceServer.Types.ConfigLoad
import FlorenceServer.Inference.ModelPaths
import FlorenceServer.Api.Forms
import FlorenceServer.Api.Traffic
import FlorenceServer.Api.HttpMetrics
