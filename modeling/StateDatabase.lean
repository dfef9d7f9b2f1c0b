import StateDatabase.Library.Runs
import StateDatabase.Library.Programs
import StateDatabase.Library.CrashPrograms
import StateDatabase.Library.Maps
import StateDatabase.Library.Snapshots
import StateDatabase.Library.SnapshotViews
import StateDatabase.Library.Packing
import StateDatabase.Library.OrderedLists
import StateDatabase.Library.BitFields
import StateDatabase.MultiIndex
import StateDatabase.GenericIndex
import StateDatabase.UndoRecord
import StateDatabase.Squash
import StateDatabase.ContractTables
import StateDatabase.Names
import StateDatabase.SnapshotRefinement
import StateDatabase.SquashUndo
import StateDatabase.SquashRecords
import StateDatabase.FailingIndex
import StateDatabase.Revisions
import StateDatabase.Database
import StateDatabase.RevisionRange
import StateDatabase.UndoStack
import StateDatabase.RowValues
import StateDatabase.Registration
import StateDatabase.DatabaseRuns
import StateDatabase.ReachableDatabases
import StateDatabase.FailingSession
import StateDatabase.FailingRegistration
import StateDatabase.IteratorCache
import StateDatabase.EosDb
import StateDatabase.Traversal
import StateDatabase.OrderedRows
import StateDatabase.KeyValueApi
import StateDatabase.EosDbSteps
import StateDatabase.ContractStore
import StateDatabase.UndoneRows
import StateDatabase.RowSteps
import StateDatabase.KeyTypes
import StateDatabase.SessionUndo
import StateDatabase.DatabaseSnapshots
import StateDatabase.ScopedSessions
import StateDatabase.ReorderedIndices
import StateDatabase.Restarts
import StateDatabase.KeyMap
import StateDatabase.EosCalls
import StateDatabase.FailingCalls
import StateDatabase.ReachableRows
import StateDatabase.Creation
import StateDatabase.RejectedStores
import StateDatabase.TableCounts
import StateDatabase.StoreView
import StateDatabase.Handles
import StateDatabase.IteratorCalls
import StateDatabase.CacheRuns
import StateDatabase.CountRuns
import StateDatabase.UndoneIterators
import StateDatabase.RangeWalks
import StateDatabase.RangePages
import StateDatabase.Navigation
import StateDatabase.WalkCalls
import StateDatabase.TableWalks
import StateDatabase.WalkRuns
import StateDatabase.NameOrder
import StateDatabase.EmptiedTables
import StateDatabase.TableValues
import StateDatabase.FailingTables
import StateDatabase.RowLookup
import StateDatabase.PrimaryMap
import StateDatabase.StoreEffects
import StateDatabase.RowCalls
import StateDatabase.StoreRefinement
import StateDatabase.SharedTables
import StateDatabase.StoreSessions
import StateDatabase.SessionCounts
import StateDatabase.IteratorNumbers
import StateDatabase.MappedFile
import StateDatabase.SavedFiles
import StateDatabase.FileOpens
import StateDatabase.FileSizes
import StateDatabase.CleanFiles
import StateDatabase.MovedFiles
import StateDatabase.InterleavedOpens
import StateDatabase.UndisturbedOpens
import StateDatabase.EndIterators
import StateDatabase.StoredSets
