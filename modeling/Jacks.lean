import Jacks.Foundations.TraceSystem
import Jacks.Foundations.BoundedFifo
import Jacks.Foundations.ThreadCount
import Jacks.Foundations.Threaded
import Jacks.Foundations.RelyGuarantee
import Jacks.Foundations.PlacedFifo
import Jacks.Ringbuffer
import Jacks.Port
import Jacks.PortBuffer
import Jacks.PortRuns
import Jacks.Delivery
import Jacks.Event
import Jacks.Client
import Jacks.RunningClient
import Jacks.Streams
import Jacks.EventQueue
import Jacks.ProcessThread
import Jacks.Announcements
import Jacks.ControlEvents
import Jacks.Session
import Jacks.SessionReply
import Jacks.SessionData
import Jacks.Channels
import Jacks.KeepUp
import Jacks.Foundations.Lifetime
import Jacks.Ownership
import Jacks.LatencyListener
import Jacks.LatencyNotification
import Jacks.JsClient
import Jacks.PortTable
import Jacks.Exceptions
import Jacks.SessionAccess
import Jacks.PortLimits
import Jacks.ProcessCycle
import Jacks.Semaphore
import Jacks.LatencyInit
import Jacks.Foundations.Text
import Jacks.ErrorReports
import Jacks.HexString
import Jacks.Foundations.Monitor
import Jacks.LatchMonitor
import Jacks.Freelist
import Jacks.FreelistStack
import Jacks.LockFreeQueue
import Jacks.QueueSteps
import Jacks.QueueOutline
import Jacks.QueueWrites
import Jacks.QueueRefinement
import Jacks.QueueGuarantees
import Jacks.QueueProgress
import Jacks.QueueLockFreedom
import Jacks.Foundations.LoneCall
import Jacks.QueueAlone
import Jacks.LockFreeDelivery
import Jacks.DeliveryProgress
import Jacks.Foundations.LoopCheck
import Jacks.QueueQuery
