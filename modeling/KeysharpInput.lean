import KeysharpInput.LeaseSafety
import KeysharpInput.Revocation
import KeysharpInput.LaneFlushes
import KeysharpInput.PolledClients
import KeysharpInput.Atomicity
import KeysharpInput.Transactions
import KeysharpInput.PumpWaits
import KeysharpInput.ObserverAccounts
import KeysharpInput.ClientObserver
import KeysharpInput.LeaseLifetimes
import KeysharpInput.RevocationFrame
import KeysharpInput.OwedReleases
import KeysharpInput.ServerFrames
import KeysharpInput.ClientReadiness
import KeysharpInput.DeviceListing
import KeysharpInput.KeyStates
import KeysharpInput.HookChain
import KeysharpInput.HookDecisions
import KeysharpInput.GrabHolds
import KeysharpInput.AbsoluteClicks
import KeysharpInput.ReportEnds
import KeysharpInput.AxisScaling
import KeysharpInput.GamepadCodec
import KeysharpInput.PipeRing
import KeysharpInput.WorkerPool
import KeysharpInput.FrameWrites
import KeysharpInput.PumpEnds
import KeysharpInput.WheelTurns
