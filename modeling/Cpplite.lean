import Cpplite.Lib.Exec
import Cpplite.Lib.Search
import Cpplite.Lib.BigEndian
import Cpplite.Base
import Cpplite.Encoding
import Cpplite.Pager.Page
import Cpplite.Pager.Managers
import Cpplite.Pager.Pager
import Cpplite.Pager.Disk
import Cpplite.Pager.ManagerSpec
import Cpplite.Lib.Chain
import Cpplite.Lib.Recency
import Cpplite.Lib.HeightTree
import Cpplite.Lib.TreeOrder
import Cpplite.Lib.TreeWalk
import Cpplite.Lib.Sweep
import Cpplite.Lib.ByteFile
import Cpplite.Pager.PagerSpec
import Cpplite.Pager.OverflowSpec
import Cpplite.Pager.Good
import Cpplite.Pager.FileRuns
import Cpplite.Pager.Readers
import Cpplite.Lib.Transfer
import Cpplite.Pager.Reopen
import Cpplite.Pager.BytesRuns
import Cpplite.Pager.ChainRuns
import Cpplite.Pager.FreeStack
import Cpplite.Pager.ManagerRuns
import Cpplite.BTree.Cursor
import Cpplite.BTree.Update
import Cpplite.BTree.Runs
import Cpplite.BTree.Checked
import Cpplite.BTree.Rep
import Cpplite.BTree.SearchSpec
import Cpplite.BTree.LinkSpec
import Cpplite.BTree.SplitSpec
import Cpplite.BTree.ParentSpec
import Cpplite.BTree.InsertSpec
import Cpplite.BTree.PairSpec
import Cpplite.BTree.RotateSpec
import Cpplite.BTree.BalanceSpec
import Cpplite.BTree.LeafPairSpec
import Cpplite.BTree.RemoveSpec
import Cpplite.BTree.Contents
import Cpplite.BTree.Map
import Cpplite.BTree.WellFormed
import Cpplite.BTree.InsertContract
import Cpplite.BTree.Traverse
import Cpplite.BTree.CursorRuns
import Cpplite.BTree.Scan
import Cpplite.BTree.Reopen
import Cpplite.Lib.TreeCount
import Cpplite.BTree.Bounds
import Cpplite.BTree.Successor
import Cpplite.BTree.Forest
import Cpplite.BTree.LeafList
import Cpplite.BTree.Leaks
import Cpplite.Catalog.Schema
import Cpplite.Catalog.Manager
import Cpplite.Catalog.Mirror
import Cpplite.Catalog.Runs
import Cpplite.Catalog.Cascade
import Cpplite.Catalog.Reopen
import Cpplite.Catalog.Restart
import Cpplite.Record
import Cpplite.RecordBounds
import Cpplite.BufferPool.Lruk
import Cpplite.BufferPool.Latches
import Cpplite.BufferPool.Interleavings
import Cpplite.Storage.FileCache
import Cpplite.Storage.Engine
import Cpplite.Storage.PageNumbers
import Cpplite.Storage.EngineSpec
import Cpplite.Storage.EngineRuns
import Cpplite.Storage.Reopen
import Cpplite.Storage.Drop
import Cpplite.BufferPool.Guards
import Cpplite.BufferPool.Pool
import Cpplite.BufferPool.PoolSpec
import Cpplite.BufferPool.PoolRuns
import Cpplite.BufferPool.Frames
import Cpplite.BufferPool.Pins
import Cpplite.BufferPool.Accesses
import Cpplite.BufferPool.Evictable
import Cpplite.BufferPool.Contents
import Cpplite.BufferPool.Restart
import Cpplite.BufferPool.GuardFlush
import Cpplite.Ddl.Passes
import Cpplite.Ddl.Description
import Cpplite.Ddl.Runs
import Cpplite.Ddl.Restart
