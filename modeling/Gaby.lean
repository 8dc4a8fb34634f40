import Gaby.Storage.OMap
import Gaby.Storage.Vector
import Gaby.Llm.Vector
import Gaby.Storage.Contract
import Gaby.Timed.Store
import Gaby.Timed.Invariant
import Gaby.Timed.Run
import Gaby.Timed.Watcher
import Gaby.Timed.ScanAfter
import Gaby.Timed.Delivery
import Gaby.Timed.Now
import Gaby.Docs.Corpus
import Gaby.Embeddocs.Sync
import Gaby.Github.Event
import Gaby.Github.Sync
import Gaby.Github.Remote
import Gaby.Github.ByDate
import Gaby.Github.Events
import Gaby.Github.Mirror
import Gaby.Github.Client
import Gaby.Github.LinkHeader
import Gaby.Github.Txtar
import Gaby.Related.Poster
import Gaby.Related.Markdown
import Gaby.Commentfix.Fixer
import Gaby.Watchers.Retry
import Gaby.Commentfix.Rewrite
import Gaby.Httprr.Trace
import Gaby.Httprr.RecordReplay
import Gaby.Storage.Locker
import Gaby.Github.Lookup
import Gaby.Github.Edits
import Gaby.Embeddocs.Complete
import Gaby.Gemini.Embed
import Gaby.Githubdocs.Sync
import Gaby.Secret.Netrc
import Gaby.Main
