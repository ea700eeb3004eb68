import DataCollectionLab.Sync.Trace
import DataCollectionLab.Sync.Convergence
import DataCollectionLab.Quality.Review
import DataCollectionLab.Sync.SentBack
import DataCollectionLab.Sync.Pull
import DataCollectionLab.Sync.Transactions
import DataCollectionLab.Sync.Serial
import DataCollectionLab.Sync.FoldRace
import DataCollectionLab.Sync.StatusRace
import DataCollectionLab.Sync.CursorRace
import DataCollectionLab.Sync.RowSecurity
import DataCollectionLab.Sync.Answers
import DataCollectionLab.Core.Answers
import DataCollectionLab.Web.DecryptSubmission
import DataCollectionLab.Core.StatusColumn
import DataCollectionLab.Core.ReturnedWork
import DataCollectionLab.Core.OutboxSafety
import DataCollectionLab.Media.Resume
import DataCollectionLab.Entities.Versions
import DataCollectionLab.Core.DatasetIndex
import DataCollectionLab.Core.Retention
import DataCollectionLab.Form.Agreement
import DataCollectionLab.Form.Totality
import DataCollectionLab.Form.Refusals
import DataCollectionLab.Lib.Stops
import DataCollectionLab.Form.Partition
import DataCollectionLab.Form.Navigation
import DataCollectionLab.Form.Blocking
import DataCollectionLab.Form.Listing
import DataCollectionLab.Form.Order
import DataCollectionLab.Form.DayCount
import DataCollectionLab.Quality.Flags
import DataCollectionLab.Quality.Reading
import DataCollectionLab.Builder.Store
import DataCollectionLab.Builder.Autosave
import DataCollectionLab.Core.Fleet
import DataCollectionLab.Export.Versions
import DataCollectionLab.Export.Names
import DataCollectionLab.Crypto.Envelope
import DataCollectionLab.Forms.Drafts
import DataCollectionLab.Projects.Keys
import DataCollectionLab.Projects.Recipients
import DataCollectionLab.People.Models
import DataCollectionLab.People.Service
import DataCollectionLab.People.Authority
import DataCollectionLab.Cases.Models
import DataCollectionLab.Cases.Holding
import DataCollectionLab.Cases.Sample
import DataCollectionLab.Sync.Consistency
import DataCollectionLab.Sync.View
import DataCollectionLab.Sync.Follower
import DataCollectionLab.Lib.Utf16
import DataCollectionLab.Lib.ReadBack
import DataCollectionLab.Crypto.Numbers
import DataCollectionLab.Crypto.CanonicalJson
import DataCollectionLab.Crypto.CanonicalReading
import DataCollectionLab.Core.CanonicalJson
import DataCollectionLab.Core.CanonicalAgreement
import DataCollectionLab.Lib.Standing
import DataCollectionLab.Submissions.Standing
import DataCollectionLab.Entities.Publishing
import DataCollectionLab.Forms.Publishing
import DataCollectionLab.Export.RoundTrip
import DataCollectionLab.Cases.CaseKey
import DataCollectionLab.Form.Interpolation
import DataCollectionLab.Xlsform.Labels
import DataCollectionLab.Xlsform.Survey
import DataCollectionLab.Xlsform.Translation
import DataCollectionLab.Export.Statistical
import DataCollectionLab.Forms.Patterns
import DataCollectionLab.Xlsform.References
import DataCollectionLab.Lib.Loops
import DataCollectionLab.Core.FlatPairs
import DataCollectionLab.Core.AnswerJson
import DataCollectionLab.Lib.Tables
import DataCollectionLab.Monitoring.Panels
import DataCollectionLab.Lib.Forest
import DataCollectionLab.Builder.Document
import DataCollectionLab.Builder.Recursion
import DataCollectionLab.Builder.Moves
import DataCollectionLab.Form.Raising
import DataCollectionLab.Quality.Acceptance
import DataCollectionLab.Xlsform.Languages
import DataCollectionLab.Lib.Mirrors
import DataCollectionLab.Form.DeviceRuntime
import DataCollectionLab.Form.Reads
import DataCollectionLab.Form.Overwriting
import DataCollectionLab.Form.Preview
import DataCollectionLab.Form.AtRest
import DataCollectionLab.Form.Lockstep
