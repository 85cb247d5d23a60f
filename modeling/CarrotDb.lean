import CarrotDb.Machine
import CarrotDb.Lib.Decimal
import CarrotDb.Lib.Bits
import CarrotDb.Listpack
import CarrotDb.ListpackCodec
import CarrotDb.ListpackLayout
import CarrotDb.ListpackInsert
import CarrotDb.ListpackRuns
import CarrotDb.Lib.Walk
import CarrotDb.ListpackWalks
import CarrotDb.ListpackCounts
import CarrotDb.ListpackSeeks
import CarrotDb.Resp
import CarrotDb.RespParsing
import CarrotDb.Lib.PrefixOrder
import CarrotDb.Lib.SortedMap
import CarrotDb.Lib.Ledger
import CarrotDb.Lib.SelfDelimiting
import CarrotDb.Lib.FloatOrder
import CarrotDb.Lib.FloatIntegers
import CarrotDb.Lib.FloatBounds
import CarrotDb.Lib.BitSpread
import CarrotDb.Lib.Lockstep
import CarrotDb.Lib.Shards
import CarrotDb.Lib.Refinement
import CarrotDb.Lib.Rounds
import CarrotDb.BulkSequences
import CarrotDb.RadixTree
import CarrotDb.RadixTreeProofs
import CarrotDb.RadixTreeRuns
import CarrotDb.Stream
import CarrotDb.StreamProofs
import CarrotDb.StreamIds
import CarrotDb.FloatText
import CarrotDb.SortedSet
import CarrotDb.SortedSetProofs
import CarrotDb.SortedSetOrders
import CarrotDb.GeoHash
import CarrotDb.Command
import CarrotDb.Db
import CarrotDb.DbStrings
import CarrotDb.DbLists
import CarrotDb.DbStreams
import CarrotDb.DbSortedSets
import CarrotDb.SortedSetCommands
import CarrotDb.GeoCells
import CarrotDb.DbSessions
import CarrotDb.DbExecute
import CarrotDb.Clients
import CarrotDb.DbListProofs
import CarrotDb.DbFrames
import CarrotDb.DbSound
import CarrotDb.DbKeyspace
import CarrotDb.StreamCommands
import CarrotDb.DbErasure
import CarrotDb.ExpiredKeys
import CarrotDb.KeyShards
import CarrotDb.UnseenMarks
import CarrotDb.Discards
import CarrotDb.XaddFailures
import CarrotDb.DbWaiting
import CarrotDb.DbListStates
import CarrotDb.ListConservation
import CarrotDb.PushHandover
import CarrotDb.ListRanges
import CarrotDb.SortedSetRanges
import CarrotDb.PushLengths
import CarrotDb.PushOverflow
import CarrotDb.CommandParser
import CarrotDb.CommandTokens
import CarrotDb.CommandProgress
import CarrotDb.CommandArity
import CarrotDb.CommandFrames
import CarrotDb.CommandStreams
import CarrotDb.CommandReplay
import CarrotDb.ParsedCommands
import CarrotDb.SetDeadlines
import CarrotDb.CommandRoundTrip
import CarrotDb.TokenSpans
import CarrotDb.RespReplies
import CarrotDb.DbAnswers
import CarrotDb.DbDefined
import CarrotDb.DbObjects
import CarrotDb.Increments
import CarrotDb.GeoAdds
import CarrotDb.SlaveReplication
import CarrotDb.ReplicaCommands
import CarrotDb.Replication
import CarrotDb.ReplicaRounds
import CarrotDb.Server
import CarrotDb.ServerFrames
import CarrotDb.WriteBuffers
import CarrotDb.ReplicaStreams
import CarrotDb.WakeUps
import CarrotDb.Handshake
import CarrotDb.ReplicaAcks
import CarrotDb.ClientStreams
import CarrotDb.WaitReplies
import CarrotDb.XreadWaits
import CarrotDb.XreadBlocks
import CarrotDb.HandshakeOrder
import CarrotDb.DbPointers
import CarrotDb.WrongTypes
import CarrotDb.DbNeeds
import CarrotDb.OneReply
import CarrotDb.Timeouts
import CarrotDb.WatchMarks
import CarrotDb.Channels
import CarrotDb.ChannelFlags
import CarrotDb.Passwords
import CarrotDb.RdbImages
import CarrotDb.AuthGate
import CarrotDb.AuthLeaks
import CarrotDb.Keyspace
import CarrotDb.KeyspaceHandlers
import CarrotDb.KeyspaceRuns
import CarrotDb.KeyspaceWire
import CarrotDb.StreamPolling
import CarrotDb.ReplicaLink
import CarrotDb.ReplicaCopies
