import QuotaManager.Logic.Workers
import QuotaManager.Types

/-! `CachedPodResolver` of `cgroup.go`. The lock is held for each access to the cache,
and not while the underlying resolver is asked in between. -/

namespace QuotaManager

/-- The cache, and what the underlying resolver would answer at the moment; `none` is its
error. `clock` is for statements only: how many requests have been served. -/
structure CachedPodResolver where
  cache : String → Option (List CgroupInfo)
  underlying : String → Option (List CgroupInfo)
  clock : Nat

inductive CacheRequest where
  | lookup (podUID : String)
  | underlying (podUID : String)
  | store (podUID : String) (info : List CgroupInfo)
  | delete (podUID : String)
  | answer (podUID : String) (info : Option (List CgroupInfo))
  deriving DecidableEq

abbrev CacheRequest.Reply : CacheRequest → Type
  | .lookup _ | .underlying _ => Option (List CgroupInfo)
  | .store _ _ | .delete _ | .answer _ _ => Unit

namespace CachedPodResolver

def newCachedPodResolver (underlying : String → Option (List CgroupInfo)) : CachedPodResolver := ⟨fun _ => none, underlying, 0⟩

def serve (resolver : CachedPodResolver) : (request : CacheRequest) → request.Reply × CachedPodResolver
  | .lookup podUID => (resolver.cache podUID, { resolver with clock := resolver.clock + 1 })
  | .underlying podUID => (resolver.underlying podUID, { resolver with clock := resolver.clock + 1 })
  | .store podUID info =>
    ((), { resolver with cache := Function.update resolver.cache podUID (some info), clock := resolver.clock + 1 })
  | .delete podUID => ((), { resolver with cache := Function.update resolver.cache podUID none, clock := resolver.clock + 1 })
  | .answer _ _ => ((), { resolver with clock := resolver.clock + 1 })

abbrev Call (α : Type) := Program CacheRequest CacheRequest.Reply α

abbrev access (request : CacheRequest) : Call request.Reply := Program.call request

def resolve (podUID : String) : Call (Option (List CgroupInfo)) := do
  match ← access (.lookup podUID) with
  | some info => return some info
  | none =>
    match ← access (.underlying podUID) with
    | none => return none
    | some info => do
      access (.store podUID info)
      return some info

def invalidate (podUID : String) : Call Unit := access (.delete podUID)

end CachedPodResolver

inductive ResolverCall where
  | resolve (podUID : String)
  | invalidate (podUID : String)

/-- A call of `Resolve` ends with the answer to its caller. -/
def ResolverCall.body : ResolverCall → CachedPodResolver.Call Unit
  | .resolve podUID => do
    let info ← CachedPodResolver.resolve podUID
    CachedPodResolver.access (.answer podUID info)
  | .invalidate podUID => CachedPodResolver.invalidate podUID

/-- Any number of calls at once, while the answers of the underlying resolver change. -/
def resolverCalls : Machine CachedPodResolver Unit ResolverCall (String × Option (List CgroupInfo)) Unit CacheRequest
    CacheRequest.Reply where
  body _ := ResolverCall.body
  serve resolver _ request _ := resolver.serve request
  drift resolver change := { resolver with underlying := Function.update resolver.underlying change.1 change.2 }

end QuotaManager
