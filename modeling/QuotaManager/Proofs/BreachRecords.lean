import QuotaManager.BreachWatcher

/-! Breach events on their way from the kernel to the watcher. The kernel writes a record
in the host's byte order, the watcher reads every record as little-endian. -/

namespace QuotaManager
open Enforcer ByteOrder

/-- The bytes of every field read the same from both ends. -/
structure Enforcer.BreachEvent.Symmetric (evt : BreachEvent) : Prop where
  nsKey : big.bytes 8 evt.nsKey.toNat = little.bytes 8 evt.nsKey.toNat
  cgid : big.bytes 8 evt.cgid.toNat = little.bytes 8 evt.cgid.toNat
  pid : big.bytes 4 evt.pid.toNat = little.bytes 4 evt.pid.toNat
  reason : big.bytes 4 evt.reason.toNat = little.bytes 4 evt.reason.toNat
  timestamp : big.bytes 8 evt.timestamp.toNat = little.bytes 8 evt.timestamp.toNat
  topCgid : big.bytes 8 evt.topCgid.toNat = little.bytes 8 evt.topCgid.toNat

/-- What the watcher makes of a field. -/
def reread64 (host : ByteOrder) (value : UInt64) : UInt64 := .ofNat (little.number (host.bytes 8 value.toNat))

def reread32 (host : ByteOrder) (value : UInt32) : UInt32 := .ofNat (little.number (host.bytes 4 value.toNat))

theorem reread64_iff (host : ByteOrder) (value : UInt64) :
    reread64 host value = value ↔ host.bytes 8 value.toNat = little.bytes 8 value.toNat := by
  have fits : value.toNat < 256 ^ 8 := value.toNat_lt
  have bound : little.number (host.bytes 8 value.toNat) < 2 ^ 64 := by
    apply (little.number_lt (host.bytes 8 value.toNat)).trans_eq
    rw [length_bytes]
    norm_num
  rw [← number_other_iff host little fits, ← UInt64.toNat_inj, reread64, UInt64.toNat_ofNat', Nat.mod_eq_of_lt bound]

theorem reread32_iff (host : ByteOrder) (value : UInt32) :
    reread32 host value = value ↔ host.bytes 4 value.toNat = little.bytes 4 value.toNat := by
  have fits : value.toNat < 256 ^ 4 := value.toNat_lt
  have bound : little.number (host.bytes 4 value.toNat) < 2 ^ 32 := by
    apply (little.number_lt (host.bytes 4 value.toNat)).trans_eq
    rw [length_bytes]
    norm_num
  rw [← number_other_iff host little fits, ← UInt32.toNat_inj, reread32, UInt32.toNat_ofNat', Nat.mod_eq_of_lt bound]

theorem length_record (evt : BreachEvent) (host : ByteOrder) : (evt.record host).length = 40 := by
  simp only [BreachEvent.record, List.length_append, length_bytes]

/-- Every record is accepted, whatever the host. -/
theorem watch_record (evt : BreachEvent) (host : ByteOrder) : watch (evt.record host) = some {
    nsKey := reread64 host evt.nsKey, cgid := reread64 host evt.cgid, pid := reread32 host evt.pid
    reason := reread32 host evt.reason, timestamp := reread64 host evt.timestamp, topCgid := reread64 host evt.topCgid } := by
  have last := little.read_append (length_bytes host 8 evt.topCgid.toNat) []
  rw [List.append_nil] at last
  rw [watch, if_neg (by rw [length_record]; decide)]
  unfold readBreachEvent BreachEvent.record
  simp only [little.read_append (length_bytes _ _ _), last, Option.bind_eq_bind, Option.bind_some]
  rfl

/-- Fewer bytes than the struct has make no event. -/
theorem watch_short {sample : List UInt8} (short : sample.length < 40) : watch sample = none := by
  cases watched : watch sample with
  | none => rfl
  | some evt =>
    unfold watch at watched
    split at watched
    · cases watched
    · simp only [readBreachEvent, Option.bind_eq_bind, Option.bind_eq_some_iff] at watched
      obtain ⟨one, first, two, second, three, third, four, fourth, five, fifth, six, sixth, -⟩ := watched
      have := read_length first
      have := read_length second
      have := read_length third
      have := read_length fourth
      have := read_length fifth
      have := read_length sixth
      omega

theorem watch_little (evt : BreachEvent) : watch (evt.record little) = some evt := by
  rw [watch_record]
  simp only [(reread64_iff little _).mpr rfl, (reread32_iff little _).mpr rfl]

/-- A record is decoded to the event that it was made from exactly when the host is
little-endian or the event reads the same in both orders; a sample that is too short
never makes an event. -/
theorem breach_decodes_iff (evt : BreachEvent) (host : ByteOrder) :
    (watch (evt.record host) = some evt ↔ host = little ∨ evt.Symmetric) ∧
      ∀ sample : List UInt8, sample.length < 40 → watch sample = none := by
  refine ⟨?_, fun sample short => watch_short short⟩
  obtain ⟨nsKey, cgid, pid, reason, timestamp, topCgid⟩ := evt
  rw [watch_record, Option.some_inj, BreachEvent.mk.injEq]
  simp only [reread64_iff, reread32_iff]
  cases host with
  | little => exact ⟨fun _ => .inl rfl, fun _ => ⟨rfl, rfl, rfl, rfl, rfl, rfl⟩⟩
  | big =>
    constructor
    · rintro ⟨first, second, third, fourth, fifth, sixth⟩
      exact .inr ⟨first, second, third, fourth, fifth, sixth⟩
    · intro either
      have symmetric := either.resolve_left (by decide)
      exact ⟨symmetric.nsKey, symmetric.cgid, symmetric.pid, symmetric.reason, symmetric.timestamp, symmetric.topCgid⟩

/-- An event of a big-endian host with namespace key 1. -/
theorem big_endian_breach_garbled :
    let evt : BreachEvent := ⟨1, 2, 3, 1, 4, 5⟩
    watch (evt.record big) = some ⟨0x0100000000000000, 0x0200000000000000, 0x03000000, 0x01000000, 0x0400000000000000, 0x0500000000000000⟩ ∧
      watch (evt.record big) ≠ some evt := by
  decide +kernel

end QuotaManager
