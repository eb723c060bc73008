import OpenNap.Lib.CText
import OpenNap.Lib.Bucket
import OpenNap.Lib.Run
import OpenNap.Lib.Ledger
import OpenNap.Lib.Duplex
import OpenNap.Buffer
import OpenNap.Reach
import OpenNap.SearchEnds
import OpenNap.Link
import OpenNap.RecordSync
import OpenNap.LevelSync
import OpenNap.ChannelSync
import OpenNap.Collision
import OpenNap.PlainChannels
import OpenNap.ExpiredBans
import OpenNap.Operators
import OpenNap.Invitations
import OpenNap.SignOns
import OpenNap.Privileges
import OpenNap.Bystanders
import OpenNap.References
import OpenNap.UserDbFile
import OpenNap.Hidden
import OpenNap.Masks
import OpenNap.BanExpiry
import OpenNap.Joins
import OpenNap.LibrarySize
import OpenNap.Rollover
import OpenNap.Queries
import OpenNap.ModeRelay
import OpenNap.HandshakeLinks
import OpenNap.Reflection
import OpenNap.CloakRelay
import OpenNap.Receive
import OpenNap.PasswordCheck
import OpenNap.Compress
import OpenNap.SendQueue
import OpenNap.Throttle
import OpenNap.Admission
import OpenNap.Limits
import OpenNap.DatumLife
import OpenNap.ServerLinks
import OpenNap.Browse
import OpenNap.ArgBuffers
import OpenNap.Arguments
import OpenNap.DirectoryBuffer
import OpenNap.Lib.EntryStack
import OpenNap.HashTable
import OpenNap.Muzzles
import OpenNap.Refusals
import OpenNap.OpsSync
import OpenNap.PeerReads
import OpenNap.Lib.Loop
import OpenNap.HandlerLookup
import OpenNap.Timers
import OpenNap.TimerRuns
import OpenNap.Lib.Chain
import OpenNap.TokenMatch
import OpenNap.HashWalk
import OpenNap.ClientSlots
import OpenNap.Hits
import OpenNap.FileRecords
import OpenNap.NewRecords
import OpenNap.Catalog
import OpenNap.ValidRecords
import OpenNap.ForwardedSearch
import OpenNap.Lib.Network
import OpenNap.Encapsulated
import OpenNap.UploadRelay
import OpenNap.SayingRelay
import OpenNap.RecordRelay
import OpenNap.Md5
import OpenNap.Totals
import OpenNap.DirectMessages
import OpenNap.ListCells
import OpenNap.ConfigVars
