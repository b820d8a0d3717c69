import SamosaChat.App.Watchdog
import SamosaChat.Attachments.Ranges
import SamosaChat.Attachments.Sweeps
import SamosaChat.Attachments.Windows
import SamosaChat.Backends.SwitchRuns
import SamosaChat.Chutni.BuildRuns
import SamosaChat.Chutni.Preflight
import SamosaChat.Chutni.Sample
import SamosaChat.Conversation.BindingRuns
import SamosaChat.Conversation.DocumentTurns
import SamosaChat.Documents.Retrieval
import SamosaChat.Documents.Review
import SamosaChat.Durable.Events
import SamosaChat.Durable.ProcessIdentity
import SamosaChat.Ecache.Lookup
import SamosaChat.Ecache.RecencyRuns
import SamosaChat.Fs.CopyConverges
import SamosaChat.Gate.Generation
import SamosaChat.Html.Output
import SamosaChat.Http.Lossless
import SamosaChat.Install.Destinations
import SamosaChat.Install.SlotRuns
import SamosaChat.Jobs.Corrections
import SamosaChat.Jobs.Finish
import SamosaChat.Jobs.SchedulePolls
import SamosaChat.Jobs.SortPlan
import SamosaChat.Jobs.Verification
import SamosaChat.Maple.BoundedBody
import SamosaChat.Maple.LeaseRuns
import SamosaChat.Memory.Grounded
import SamosaChat.Memory.Preview
import SamosaChat.Multimodal.Replies
import SamosaChat.Prompt.Kept
import SamosaChat.Prompt.Search
import SamosaChat.Prompt.Wire
import SamosaChat.Proxy.Chunking
import SamosaChat.Reader.Cached
import SamosaChat.Reader.Entries
import SamosaChat.Reader.Prune
import SamosaChat.Scheduler.ServeScheduler
import SamosaChat.Settings.Writers
import SamosaChat.Setup.Updates
import SamosaChat.Summary.Batching
import SamosaChat.Teacher.Resume
import SamosaChat.Teacher.Pinned
import SamosaChat.Tokenizer.Merge
import SamosaChat.Tokenizer.Split
import SamosaChat.Web.Join
import SamosaChat.Web.PublicText
import SamosaChat.Web.Redact
import SamosaChat.Web.RobotsRules
import SamosaChat.Web.Vetted
