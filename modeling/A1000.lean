import A1000.Lib.Run
import A1000.Lib.Ledger
import A1000.Lib.Bytes
import A1000.Lib.Hex
import A1000.Lib.Stdio
import A1000.Lib.Accum
import A1000.Lib.Framing
import A1000.Lib.Memo
import A1000.Lib.Fallible
import A1000.Lib.Walk
import A1000.Lib.Traced
import A1000.Lib.Window
import A1000.Lib.Frame
import A1000.Lib.Handles
import A1000.Lib.Heap
import A1000.Lib.Slots
import A1000.Lib.Painter
import A1000.Lib.Ring
import A1000.Audio.Pcm
import A1000.Audio.Stream
import A1000.Power.Hal
import A1000.Power.Bounds
import A1000.Power.Boost
import A1000.Power.Recover
import A1000.Hci.Layer
import A1000.Hci.Live
import A1000.Hci.Futured
import A1000.Hci.Ownership
import A1000.Hci.ShutDown
import A1000.Hci.Credits
import A1000.Hci.Order
import A1000.Hci.Parser
import A1000.Hci.Answers
import A1000.Hci.StartUp
import A1000.Hci.H4
import A1000.Shim.Color
import A1000.Shim.Osd
import A1000.Shim.Recolor
import A1000.Shim.Post
import A1000.Shim.ZeroCopy
import A1000.Shim.OneWay
import A1000.Shim.Record
import A1000.Shim.Mapping
import A1000.Shim.Hooks
import A1000.Shim.Pixclock
import A1000.Shim.Egl
import A1000.Bootimg.Image
import A1000.Bootimg.Cpio
import A1000.Bootimg.Replace
import A1000.Bootimg.OneFile
import A1000.Bootimg.Rounds
import A1000.Sepolicy.Inject
import A1000.Sepolicy.Rules
import A1000.Composer.Hwc1
import A1000.Composer.Hwc2on1
import A1000.Composer.Callbacks
import A1000.Flinger.Geometry
import A1000.Flinger.Pan
import A1000.Flinger.ProgramCache
import A1000.Flinger.Regions
import A1000.Flinger.Rebuild
import A1000.Flinger.Damage
import A1000.Flinger.SyncPoint
import A1000.Flinger.Barrier
import A1000.Flinger.Deferred
import A1000.Flinger.Relatives
import A1000.Flinger.Traversal
import A1000.Camera.Elfload
import A1000.Camera.Loader
import A1000.Camera.Confined
import A1000.Camera.Atomic
import A1000.Camera.Symtab
import A1000.Camera.Abi
import A1000.Btu.Encryption
import A1000.Ril.CardStatus
import A1000.Ril.SignalStrength
import A1000.Memtrack.Table
import A1000.Memtrack.Sum
import A1000.Recovery.Fbdev
import A1000.Recovery.Shown
