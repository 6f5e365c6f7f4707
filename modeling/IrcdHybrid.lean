import IrcdHybrid.MatchLanguage
import IrcdHybrid.Registration
import IrcdHybrid.ListMerge
import IrcdHybrid.ModePropagation
import IrcdHybrid.TopicBurst
import IrcdHybrid.BanCoherence
import IrcdHybrid.RelayFaithful
import IrcdHybrid.BanRoundTrip
import IrcdHybrid.SharedSend
import IrcdHybrid.FanOut
import IrcdHybrid.GlineVote
import IrcdHybrid.CidrRuns
import IrcdHybrid.BurstLaw
import IrcdHybrid.CollapseMatch
import IrcdHybrid.JoinStatics
import IrcdHybrid.SjoinReplay
import IrcdHybrid.ConfRuns
import IrcdHybrid.ColonHex
import IrcdHybrid.CommandTrie
import IrcdHybrid.Invitations
import IrcdHybrid.MessageFlood
import IrcdHybrid.BanDurations
import IrcdHybrid.PartReason
import IrcdHybrid.UserHosts
import IrcdHybrid.ConnectThrottle
import IrcdHybrid.LineDelivery
import IrcdHybrid.BanInverse
import IrcdHybrid.Dlink
import IrcdHybrid.HashTables
import IrcdHybrid.WatchTable
import IrcdHybrid.WhowasRing
import IrcdHybrid.EventQueue
import IrcdHybrid.ChannelNames
import IrcdHybrid.CounterRuns
import IrcdHybrid.NickRuns
import IrcdHybrid.UserRuns
import IrcdHybrid.AuthNames
import IrcdHybrid.AuthIds
import IrcdHybrid.PoolRuns
import IrcdHybrid.FloodControl
