import FlyMail.Lib.Text
import FlyMail.Lib.Layout
import FlyMail.Lib.Calendar
import FlyMail.Lib.Run
import FlyMail.Lib.Calls
import FlyMail.Lib.Channel
import FlyMail.Lib.Chunks
import FlyMail.Lib.Components
import FlyMail.Lib.Distinct
import FlyMail.Lib.Proc
import FlyMail.Lib.Ends
import FlyMail.Lib.Fields
import FlyMail.Lib.Firsts
import FlyMail.Lib.Fts5
import FlyMail.Lib.Fts5Query
import FlyMail.Lib.Index
import FlyMail.Lib.Joined
import FlyMail.Lib.Json
import FlyMail.Lib.LastWrite
import FlyMail.Lib.Like
import FlyMail.Lib.Marks
import FlyMail.Lib.Utf8
import FlyMail.Lib.Percent
import FlyMail.Lib.Mime
import FlyMail.Lib.Newest
import FlyMail.Lib.OneTime
import FlyMail.Lib.Paging
import FlyMail.Lib.Pattern
import FlyMail.Lib.Postings
import FlyMail.Lib.Quoted
import FlyMail.Lib.Rfc3339
import FlyMail.Lib.Srcset
import FlyMail.Lib.Until
import FlyMail.Lib.Sweep
import FlyMail.Lib.Table
import FlyMail.Lib.UnionFind
import FlyMail.Lib.Utf16
import FlyMail.Lib.WebUrl
import FlyMail.Lib.While
import FlyMail.Store
import FlyMail.Store.Statements
import FlyMail.Message.Repository
import FlyMail.Message.Thread
import FlyMail.Message.Service
import FlyMail.Message.Body
import FlyMail.Message.Fts
import FlyMail.Account.Model
import FlyMail.Message.List
import FlyMail.Message.Mailtext
import FlyMail.Message.Query
import FlyMail.Message.Match
import FlyMail.Message.ThreadID
import FlyMail.Folder.Service
import FlyMail.Imap.Mailbox
import FlyMail.Sync.Notify
import FlyMail.Sync.Manager
import FlyMail.Imap.Server
import FlyMail.Imap.Timeout
import FlyMail.Imap.Utf7
import FlyMail.Sse.Hub
import FlyMail.Sync.Status
import FlyMail.Sync.Feed
import FlyMail.Sync.Loop
import FlyMail.Sync.Health
import FlyMail.Sync.WbStore
import FlyMail.Sync.Writeback
import FlyMail.Sync.MailOps
import FlyMail.Sync.Plan
import FlyMail.Sync.System
import FlyMail.Sync.Renumbering
import FlyMail.Rule.Engine
import FlyMail.Rule.Service
import FlyMail.Sync.RuleRunner
import FlyMail.Sync.Slots
import FlyMail.Sse.Ticket
import FlyMail.Notify.LarkMd
import FlyMail.Notify.Render
import FlyMail.Notify.Service
import FlyMail.Rule.Blocks
import FlyMail.Html.Sanitize
import FlyMail.Auth.Limiter
import FlyMail.Auth.Service
import FlyMail.Account.Access
import FlyMail.Account.Flow
import FlyMail.Account.Identity
import FlyMail.Account.Portable
import FlyMail.Account.Purge
import FlyMail.Proofs.Addresses
import FlyMail.Proofs.Fetch
import FlyMail.Proofs.Pending
import FlyMail.Proofs.Rules
import FlyMail.Proofs.Suppress
import FlyMail.Proofs.History
import FlyMail.Proofs.Prefetch
import FlyMail.Proofs.RulePages
import FlyMail.Proofs.Arrivals
import FlyMail.Send.Builder
import FlyMail.Proofs.Builder
import FlyMail.Parser.Headers
import FlyMail.Parser.Parts
import FlyMail.Proofs.Parts
import FlyMail.Send.DataUrl
import FlyMail.Proofs.Attachments
import FlyMail.Mail2im.Auth
import FlyMail.Proofs.Auth
import FlyMail.Proofs.Batches
import FlyMail.Proofs.Bigrams
import FlyMail.Proofs.Blocks
import FlyMail.Translate.Segments
import FlyMail.Translate.Codec
import FlyMail.Translate.Service
import FlyMail.Proofs.Codec
import FlyMail.Proofs.MailOps
import FlyMail.Proofs.Plan
import FlyMail.Proofs.Copies
import FlyMail.Mail2im.Account
import FlyMail.Mail2im.Dispatcher
import FlyMail.Mail2im.Transfer
import FlyMail.Proofs.Transfer
import FlyMail.Proofs.Copy
import FlyMail.Proofs.Segments
import FlyMail.Proofs.Cutting
import FlyMail.Proofs.DataUrl
import FlyMail.Proofs.Paging
import FlyMail.Proofs.Dedupe
import FlyMail.Proofs.Discreet
import FlyMail.Proofs.Dispatcher
import FlyMail.Proofs.Echo
import FlyMail.Proofs.Expression
import FlyMail.Ai.Health
import FlyMail.Translate.Failover
import FlyMail.Proofs.Failover
import FlyMail.Proofs.Hub
import FlyMail.Proofs.Progress
import FlyMail.Proofs.Feed
import FlyMail.Proofs.Mailtext
import FlyMail.Proofs.FeishuCard
import FlyMail.Proofs.Queue
import FlyMail.Proofs.Server
import FlyMail.Proofs.Flags
import FlyMail.Proofs.Flow
import FlyMail.Proofs.Fts
import FlyMail.Proofs.Threads
import FlyMail.Proofs.Rebuild
import FlyMail.Proofs.Graph
import FlyMail.Proofs.Headers
import FlyMail.Proofs.Health
import FlyMail.Proofs.Identity
import FlyMail.Proofs.Inline
import FlyMail.Proofs.Intent
import FlyMail.Proofs.Limiter
import FlyMail.Proofs.Loop
import FlyMail.Proofs.References
import FlyMail.Proofs.MessageID
import FlyMail.Proofs.Moves
import FlyMail.Ui.NextPath
import FlyMail.Proofs.NextPath
import FlyMail.Proofs.Notify
import FlyMail.Mail2im.OAuth
import FlyMail.Proofs.OAuth
import FlyMail.Mail2im.OAuthProxy
import FlyMail.Proofs.OAuthProxy
import FlyMail.Proofs.Password
import FlyMail.Proofs.Portable
import FlyMail.Proofs.Purge
import FlyMail.Proofs.Reauthorize
import FlyMail.Proofs.Style
import FlyMail.Proofs.Remote
import FlyMail.Proofs.Renumbering
import FlyMail.Proofs.Repair
import FlyMail.Proofs.Restore
import FlyMail.Proofs.Runs
import FlyMail.Proofs.Reuse
import FlyMail.Ui.SearchTerms
import FlyMail.Proofs.SearchTerms
import FlyMail.Proofs.Slots
import FlyMail.Proofs.Srcset
import FlyMail.Proofs.Stale
import FlyMail.Proofs.Subject
import FlyMail.Ui.SyncCache
import FlyMail.Proofs.SyncCache
import FlyMail.Proofs.ThreadID
import FlyMail.Proofs.Ticket
import FlyMail.Proofs.Timeout
import FlyMail.Proofs.Tokens
import FlyMail.Proofs.Utf7
import FlyMail.Mail2im.Watcher
import FlyMail.Proofs.Watcher
import FlyMail.Proofs.Words
import FlyMail.Mail2im.Worker
import FlyMail.Proofs.Worker
