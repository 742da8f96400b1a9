import DispatchRouter.Math.ChunkList
import DispatchRouter.Math.Octets
import DispatchRouter.Amqp.Value
import DispatchRouter.Amqp.Compose
import DispatchRouter.Amqp.ComposeSpec
import DispatchRouter.Amqp.Parse
import DispatchRouter.Amqp.RoundTrip
import DispatchRouter.Amqp.Grammar
import DispatchRouter.Amqp.Annotations
import DispatchRouter.Amqp.AnnotationsSpec
import DispatchRouter.Hash.Table
import DispatchRouter.Math.AssocList
import DispatchRouter.Math.Mealy
import DispatchRouter.Hash.Sound
import DispatchRouter.Hash.Spec
import DispatchRouter.Math.Dict
import DispatchRouter.Router.Path
import DispatchRouter.Router.Node
import DispatchRouter.Router.Core
import DispatchRouter.Math.Glob
import DispatchRouter.Math.Hex
import DispatchRouter.ParseTree.Pattern
import DispatchRouter.Math.Traversal
import DispatchRouter.ParseTree.Tree
import DispatchRouter.ParseTree.Layout
import DispatchRouter.ParseTree.Grow
import DispatchRouter.ParseTree.Add
import DispatchRouter.ParseTree.Remove
import DispatchRouter.ParseTree.Search
import DispatchRouter.ParseTree.Walk
import DispatchRouter.ParseTree.Machine
import DispatchRouter.ParseTree.Wrap
import DispatchRouter.ParseTree.Precedence
import DispatchRouter.Math.Word
import DispatchRouter.Math.Scan
import DispatchRouter.Hash.Prefix
import DispatchRouter.Bitmask.Model
import DispatchRouter.Bitmask.Bits
import DispatchRouter.Bitmask.Cache
import DispatchRouter.Math.CString
import DispatchRouter.Policy.LinkName
import DispatchRouter.Policy.LinkNameSpec
import DispatchRouter.Policy.LinkNameTree
import DispatchRouter.Policy.LinkNameTreeSpec
import DispatchRouter.Router.Cost
import DispatchRouter.Router.Engine
import DispatchRouter.Router.PathSpec
import DispatchRouter.Router.LinkRoute
import DispatchRouter.Router.Exchange
import DispatchRouter.Math.Deq
import DispatchRouter.Router.CoreTimer
import DispatchRouter.Server.Timer
import DispatchRouter.Buffer.Field
import DispatchRouter.Buffer.FieldSpec
import DispatchRouter.MobileSync.Core
import DispatchRouter.MobileSync.Holders
import DispatchRouter.MobileSync.Count
import DispatchRouter.MobileSync.Run
import DispatchRouter.Iterator.View
import DispatchRouter.Iterator.Address
import DispatchRouter.Iterator.Keys
import DispatchRouter.Iterator.Tenant
import DispatchRouter.Iterator.Trim
import DispatchRouter.Iterator.Fast
import DispatchRouter.Iterator.Views
import DispatchRouter.Iterator.Calls
import DispatchRouter.Math.Tally
import DispatchRouter.Delivery.Tracking
import DispatchRouter.Delivery.Peers
import DispatchRouter.Delivery.PeerWalk
import DispatchRouter.Delivery.Multicast
import DispatchRouter.Alloc.Stack
import DispatchRouter.Alloc.StackSpec
import DispatchRouter.Alloc.Pool
import DispatchRouter.Alloc.PoolSpec
import DispatchRouter.Message.Q2
import DispatchRouter.Math.Writes
import DispatchRouter.Router.EdgeTracking
