import ViTools.Lib.MachineInt
import ViTools.Lib.CInt
import ViTools.Lib.Bytes
import ViTools.Lib.Buffer
import ViTools.Lib.XorByte
import ViTools.Lib.Ledger
import ViTools.Lib.Run
import ViTools.Lib.Keyed
import ViTools.Lib.FirstMin
import ViTools.Lib.LossyFifo
import ViTools.Lib.Inquiry
import ViTools.Lib.Scan
import ViTools.Lib.Strtol
import ViTools.Lib.TextObjects
import ViTools.Lib.Progress
import ViTools.Lib.Latest
import ViTools.Lib.StartCode
import ViTools.Lib.Groups
import ViTools.Lib.ParityCode
import ViTools.Lib.SilentChange
import ViTools.Lib.Spaced
import ViTools.Lib.Socket
import ViTools.Fstest.Sys
import ViTools.Fstest.Program
import ViTools.Fstest.Trace
import ViTools.Fstest.Accounting
import ViTools.Fstest.Writes
import ViTools.Fstest.Reports
import ViTools.Fstest.Errors
import ViTools.Fstest.Chain
import ViTools.Fstest.File
import ViTools.Fstest.Verdict
import ViTools.Fstest.Plan
import ViTools.Fstest.Reproducible
import ViTools.Fstest.ChainEffect
import ViTools.Fstest.Safety
import ViTools.Fstest.Args
import ViTools.Fstest.Detection
import ViTools.Fstest.Decay
import ViTools.UdpTsSeqReply.Time
import ViTools.UdpTsSeqReply.Serve
import ViTools.UdpTsSeqReply.Sequence
import ViTools.UdpTsSeqReply.Probe
import ViTools.UdpTsSeqReply.Measure
import ViTools.UdpTsSeqReply.RoundTrip
import ViTools.UdpTsSeqReply.OwnBytes
import ViTools.UdpTsSeqReply.Rebinding
import ViTools.UdpTsSeqReply.Delays
import ViTools.UdpTsSeqReply.Session
import ViTools.UdpTsSeqReply.Losses
import ViTools.UdpTsSeqReply.Validate
import ViTools.UdpTsSeqReply.Pacing
import ViTools.UdpTsSeqReply.Schedule
import ViTools.UdpTsSeqReply.Output
import ViTools.UdpTsSeqReply.Outages
import ViTools.UdpTimeoutChecker.Experiment
import ViTools.UdpTimeoutChecker.Probe
import ViTools.UdpTimeoutChecker.Serve
import ViTools.UdpTimeoutChecker.Child
import ViTools.UdpTimeoutChecker.Session
import ViTools.UdpTimeoutChecker.Credit
import ViTools.UdpTimeoutChecker.Translation
import ViTools.UdpTimeoutChecker.Measurement
import ViTools.UdpTimeoutChecker.Children
import ViTools.UdpTimeoutChecker.Duration
import ViTools.Udppair.Relay
import ViTools.Udppair.Routing
import ViTools.Udppair.Marks
import ViTools.Udpfilepecker.Serve
import ViTools.Udpfilepecker.Pecks
import ViTools.Udpfilepecker.Control
import ViTools.Bpg2hevc.BuildMsps
import ViTools.Bpg2hevc.Fields
import ViTools.Bpg2hevc.Nal
import ViTools.Bpg2hevc.Sizes
import ViTools.Bpg2hevc.Main
import ViTools.Bpg2hevc.Content
import ViTools.TimingMach.Timer
import ViTools.CgroupMemoryPressureMonitor.Monitor
import ViTools.DumpTcStats.Dump
import ViTools.UksmTease.Fill
