import DataReel.Library.KeySet
import DataReel.Btree.InsertRun
import DataReel.Btree.FastDeleteRun
import DataReel.Btree.Searches
import DataReel.Btree.Full
import DataReel.Btree.Refinement
import DataReel.Btree.Reachable
import DataReel.Btree.ChangeKey
import DataReel.Btree.AllocFailure
import DataReel.Btree.TreeShape
import DataReel.Btree.Hints
import DataReel.Btree.HalfFull
import DataReel.Database.SharedFile
import DataReel.Database.FileLock
import DataReel.Btree.TreesRun
import DataReel.Btree.OpenClose
import DataReel.Database.NavigateRun
import DataReel.Database.RebuildRun
import DataReel.Table.Header
import DataReel.Database.Contents
import DataReel.Hog.InSyncRun
import DataReel.Thread.PoolRun
import DataReel.Pod.PodRun
import DataReel.Net.Verified
import DataReel.Net.EncryptedFtp
import DataReel.Net.FtpRun
import DataReel.Net.HttpRead
import DataReel.Database.BestFit
import DataReel.Database.UnDeleteRun
import DataReel.Hog.ReadWrite
import DataReel.Library.ShiftRegister
import DataReel.Database.Crc32Burst
import DataReel.Database.Checksum
import DataReel.Database.BlockWalk
import DataReel.Database.RecordLock
import DataReel.Btree.ChangeOrAdd
import DataReel.Btree.SmallOrder
import DataReel.Database.Faults
import DataReel.Database.FailedCalls
import DataReel.Database.Served
import DataReel.Database.AllocLimits
import DataReel.Table.Comparisons
import DataReel.Pod.Persistent
import DataReel.Hog.CompareIndex
import DataReel.Hog.ChangeObject
import DataReel.Btree.OtherOrder
import DataReel.Table.Rdbms
import DataReel.Table.Search
import DataReel.Table.VerifyIndex
import DataReel.Net.Base64
import DataReel.Net.Url
import DataReel.Net.UrlRoundTrip
import DataReel.Net.UrlResolve
import DataReel.Net.MailText
import DataReel.Net.WholeStream
import DataReel.Net.HttpBody
import DataReel.Net.HttpFraming
import DataReel.Net.HttpClient
import DataReel.Hog.KeyOrder
import DataReel.Table.CompareOrder
import DataReel.Btree.SearchBuilds
import DataReel.Database.SignedClasses
import DataReel.Net.Pieces
import DataReel.Net.TelnetStream
import DataReel.Net.TelnetFilter
import DataReel.Net.TelnetSearch
import DataReel.Net.RecvString
import DataReel.Database.CacheRun
import DataReel.Database.CachedFileRun
import DataReel.Net.BlockStreamRun
import DataReel.Config.ChangeValue
import DataReel.Table.DefinitionRun
import DataReel.Table.KeyDefinition
import DataReel.Table.RecordRebuild
