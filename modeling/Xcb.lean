import Xcb.Framing
import Xcb.Chunks
import Xcb.Cookie
import Xcb.Synchrony
import Xcb.RequestCheck
import Xcb.Xid
import Xcb.Arguments
import Xcb.Accessors
import Xcb.Discard
import Xcb.Stream
import Xcb.TakeSocket
import Xcb.Display
import Xcb.RequestLength
import Xcb.PartialWrite
import Xcb.ExtensionCache
import Xcb.Exhaustion
import Xcb.Handoff
import Xcb.Elements
import Xcb.ReaderOrder
import Xcb.ReaderRole
import Xcb.Wakeup
import Xcb.ValueMask
import Xcb.Tails
import Xcb.Callers
import Xcb.Wired
import Xcb.Destroy
import Xcb.Setup
import Xcb.Connect
import Xcb.Sleep
import Xcb.Locks
