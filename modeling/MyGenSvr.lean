import MyGenSvr.Verified.ByteOrder
import MyGenSvr.Verified.Buffer
import MyGenSvr.Verified.Transition
import MyGenSvr.Verified.Framing
import MyGenSvr.Ports.CommDef
import MyGenSvr.Ports.DataBuffer
import MyGenSvr.Ports.Serializer
import MyGenSvr.Ports.Archive
import MyGenSvr.Ports.RoundTrip
import MyGenSvr.Ports.PkgHead
import MyGenSvr.Ports.Service
import MyGenSvr.Ports.HandleRead
import MyGenSvr.Ports.ReactorRun
import MyGenSvr.Ports.Segmentation
import MyGenSvr.Ports.ReplyStream
import MyGenSvr.Verified.Noninterference
import MyGenSvr.Ports.Isolation
import MyGenSvr.Ports.Ownership
import MyGenSvr.Ports.WakeUp
import MyGenSvr.Ports.NotifyPipe
import MyGenSvr.Ports.Encoding
import MyGenSvr.Ports.SaveErrors
import MyGenSvr.Ports.RefusedPieces
import MyGenSvr.Ports.LoadErrors
import MyGenSvr.Ports.ErrorMask
import MyGenSvr.Ports.SendMsg
import MyGenSvr.Ports.Handler3005
import MyGenSvr.Ports.WriteGuard
import MyGenSvr.Ports.Acknowledgement
import MyGenSvr.Ports.HostIndependence
import MyGenSvr.Ports.ListRoundTrip
import MyGenSvr.Ports.NestedLists
import MyGenSvr.Ports.NestedRoundTrip
import MyGenSvr.Ports.ConnObjects
import MyGenSvr.Ports.EdgeDrain
import MyGenSvr.Ports.FrameLength
import MyGenSvr.Ports.HeaderCodec
import MyGenSvr.Ports.ScalarStream
import MyGenSvr.Ports.FailedTargets
import MyGenSvr.Ports.UnreadOnly
import MyGenSvr.Ports.DecodedElements
import MyGenSvr.Verified.Text
import MyGenSvr.Ports.IniFile
import MyGenSvr.Ports.IniLookup
import MyGenSvr.Ports.IniComments
import MyGenSvr.Ports.IniBrackets
import MyGenSvr.Ports.ReadConfig
import MyGenSvr.Ports.ConnectionId
import MyGenSvr.Ports.CursorOrder
import MyGenSvr.Ports.DateOrder
import MyGenSvr.Ports.AddMonths
import MyGenSvr.Ports.SetDate
import MyGenSvr.Ports.Log
import MyGenSvr.Ports.LogRotation
import MyGenSvr.Ports.LogRace
import MyGenSvr.Ports.HandleAccept
import MyGenSvr.Ports.DateWire
import MyGenSvr.Ports.ServedStream
import MyGenSvr.Ports.MainLoop
import MyGenSvr.Ports.RunSingle
import MyGenSvr.Ports.Startup
import MyGenSvr.Ports.Format
import MyGenSvr.Ports.WriteLog
import MyGenSvr.Ports.RemoteCall
import MyGenSvr.Ports.DateStrings
import MyGenSvr.Ports.MonthRuns
import MyGenSvr.Ports.TimeSpans
import MyGenSvr.Ports.Configured
import MyGenSvr.Ports.HexString
import MyGenSvr.Verified.BoundedTape
import MyGenSvr.Ports.BufferTape
import MyGenSvr.Ports.ServiceLog
import MyGenSvr.Ports.ShortInputs
