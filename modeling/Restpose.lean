import Restpose.Core.Attempt
import Restpose.Core.KeyTree
import Restpose.Core.OrderedCodes
import Restpose.Core.Positions
import Restpose.Core.Results
import Restpose.Core.Bytes
import Restpose.Core.Closure
import Restpose.Core.Loops
import Restpose.Core.Precedence
import Restpose.Core.Transition
import Restpose.Json.Value
import Restpose.Json.Access
import Restpose.Json.Utils
import Restpose.Json.Integers
import Restpose.Schema.FieldConfig
import Restpose.Schema.Schema
import Restpose.Schema.Queries
import Restpose.Schema.Merge
import Restpose.Schema.FieldRoundTrip
import Restpose.Schema.SchemaRoundTrip
import Restpose.Config.CollectionConfig
import Restpose.Config.Reading
import Restpose.Config.SetConfig
import Restpose.Config.Clone
import Restpose.Config.Rejected
import Restpose.Indexing.DocumentValues
import Restpose.Indexing.Indexers
import Restpose.Indexing.Findable
import Restpose.Indexing.Process
import Restpose.Indexing.Coherent
import Restpose.Indexing.SchemaGrowth
import Restpose.Indexing.Visits
import Restpose.Indexing.Sequences
import Restpose.Indexing.Presence
import Restpose.Indexing.ExistsQuery
import Restpose.Indexing.IdTerm
import Restpose.Indexing.Fetch
import Restpose.Taxonomy.Model
import Restpose.Taxonomy.Edits
import Restpose.Taxonomy.Invariant
import Restpose.Taxonomy.AddParent
import Restpose.Taxonomy.Remove
import Restpose.Taxonomy.Reachable
import Restpose.Taxonomy.Codec
import Restpose.Taxonomy.Passes
import Restpose.Server.TaskQueueGroup
import Restpose.Server.QueueFacts
import Restpose.Server.RoundRobin
import Restpose.Server.Delivery
import Restpose.Server.Pool
import Restpose.Server.Exclusive
import Restpose.Server.Progress
import Restpose.Server.TaskManager
import Restpose.Server.Schedule
import Restpose.Server.Checkpoint
import Restpose.Server.Shutdown
import Restpose.Server.Drain
import Restpose.Server.Load
import Restpose.Server.Nudge
import Restpose.Server.Stranded
import Restpose.Server.LastWorker
import Restpose.Server.Cleanup
import Restpose.Server.WaitingPush
import Restpose.Server.CheckPointManager
import Restpose.Server.ErrorAccounting
import Restpose.Server.SchemaUpdates
import Restpose.Server.SerialUpdates
import Restpose.Core.Cursors
import Restpose.Xapian.Database
import Restpose.Xapian.Libraries
import Restpose.DbGroup.Model
import Restpose.DbGroup.Contents
import Restpose.DbGroup.FiniteMap
import Restpose.DbGroup.Reads
import Restpose.Collection.Categories
import Restpose.Collection.Refresh
import Restpose.Collection.GroupUpdate
import Restpose.Collection.Maintenance
import Restpose.Collection.CollectionPool
import Restpose.Collection.PoolHandles
import Restpose.Collection.PoolRuns
import Restpose.JsonManip.JsonPath
import Restpose.JsonManip.Conditionals
import Restpose.JsonManip.Mapping
import Restpose.JsonManip.Faults
import Restpose.JsonManip.Pipe
import Restpose.JsonManip.RoundTrip
import Restpose.JsonManip.Applying
import Restpose.Search.Lengths
import Restpose.Search.SortKeys
import Restpose.Search.RangeSource
import Restpose.Search.RangeCalls
import Restpose.Search.RangeRuns
import Restpose.Search.TextReader
import Restpose.Search.StoredData
import Restpose.Indexing.NamedSlots
import Restpose.Search.SlotDecoders
import Restpose.Search.Paging
import Restpose.Search.DateRanges
import Restpose.Collection.RemoveTaxonomy
import Restpose.Collection.CategoryReads
import Restpose.Core.Heaps
import Restpose.Core.RankDistance
import Restpose.Ngramcat.Profile
import Restpose.Ngramcat.Build
import Restpose.Ngramcat.Distance
import Restpose.Ngramcat.Stored
import Restpose.Ngramcat.Categoriser
import Restpose.Rest.Router
import Restpose.Rest.StaticFiles
