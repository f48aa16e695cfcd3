import QuotaManager.Logic.Bytes
import QuotaManager.Enforcer

/-! The ring buffer between the kernel programs and the breach watcher of `syncer.go`:
how the kernel lays out a `struct breach_event`, and how the watcher reads one. -/

namespace QuotaManager
open Enforcer

/-- The fields of the struct leave no gaps. -/
def Enforcer.BreachEvent.record (evt : BreachEvent) (host : ByteOrder) : List UInt8 :=
  host.bytes 8 evt.nsKey.toNat ++ (host.bytes 8 evt.cgid.toNat ++ (host.bytes 4 evt.pid.toNat ++
    (host.bytes 4 evt.reason.toNat ++ (host.bytes 8 evt.timestamp.toNat ++ host.bytes 8 evt.topCgid.toNat))))

/-- `binary.Read` of a `BpfBreachEvent`: field by field, in the given byte order. -/
def readBreachEvent (order : ByteOrder) (sample : List UInt8) : Option BreachEvent := do
  let (nsKey, sample) ← order.read 8 sample
  let (cgid, sample) ← order.read 8 sample
  let (pid, sample) ← order.read 4 sample
  let (reason, sample) ← order.read 4 sample
  let (timestamp, sample) ← order.read 8 sample
  let (topCgid, _) ← order.read 8 sample
  return {
    nsKey := .ofNat nsKey, cgid := .ofNat cgid, pid := .ofNat pid, reason := .ofNat reason
    timestamp := .ofNat timestamp, topCgid := .ofNat topCgid }

/-- The body of the watcher's loop up to the event. -/
def watch (sample : List UInt8) : Option BreachEvent :=
  if sample.length < 32 then none else readBreachEvent .little sample

end QuotaManager
