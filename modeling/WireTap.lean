import WireTap.ByteString
import WireTap.Can.Id
import WireTap.Can.Dlc
import WireTap.Can.Kernel
import WireTap.Gvret.Push
import WireTap.Gvret.Session
import WireTap.Gvret.Grammar
import WireTap.Ingest.Enqueue
import WireTap.Bridge.Server
import WireTap.Bridge.Rows
import WireTap.Bridge.Echo
import WireTap.Bridge.BusParams
import WireTap.Bridge.Console
import WireTap.Ingest.Spill
import WireTap.Ingest.Worker
import WireTap.Ingest.Conservation
import WireTap.Gvret.Refinement
import WireTap.Gvret.Residue
import WireTap.Netlink.Attrs
import WireTap.Bridge.Runs
import WireTap.Netlink.Bitrates
import WireTap.Ingest.Counters
import WireTap.Ingest.Order
import WireTap.Ingest.Progress
import WireTap.Bridge.Log
import WireTap.Pipeline
