import RustySsr.Cache.Cold.Model

/-!
Owns which pages a cold cache can contain after each operation. A page is what
an entry says apart from its access stamp, so touching an entry changes no
page. Every operation but `insert` only removes pages, and `insert` adds its own.
-/

namespace RustySsr.Cache.ColdCache

open RustySsr.Platform

/-- The cold cache holds this page under the key, whatever its access stamp. -/
def HasPage (cold : ColdCache) (key : UInt64) (url html : String) (createdAt : Nat) : Prop :=
  ∃ lastAccess, cold.cache.lookup key = some ⟨url, html, lastAccess, createdAt⟩

theorem hasPage_of_lookup {cold : ColdCache} {key : UInt64} {entry : CacheEntry}
    (found : cold.cache.lookup key = some entry) :
    cold.HasPage key entry.url entry.html entry.createdAt :=
  ⟨entry.lastAccess, found⟩

@[simp] theorem not_hasPage_withTtl (maxEntries ttlSecs : Nat) (key : UInt64)
    (url html : String) (createdAt : Nat) :
    ¬ (withTtl maxEntries ttlSecs).HasPage key url html createdAt := by
  rintro ⟨lastAccess, found⟩
  simp [withTtl] at found

@[simp] theorem not_hasPage_clear (cold : ColdCache) (key : UInt64) (url html : String)
    (createdAt : Nat) : ¬ cold.clear.HasPage key url html createdAt := by
  rintro ⟨lastAccess, found⟩
  simp [clear] at found

/-- A lookup adds no page. -/
theorem hasPage_get {cold : ColdCache} {urlHash key : UInt64} {now createdAt : Nat}
    {url html : String} (page : (cold.get urlHash now).2.HasPage key url html createdAt) :
    cold.HasPage key url html createdAt := by
  obtain ⟨lastAccess, found⟩ := page
  unfold get at found
  split at found
  · exact ⟨lastAccess, found⟩
  · rename_i entry present
    split_ifs at found
    · exact ⟨lastAccess, (HashMap.lookup_erase_some_iff.mp found).2⟩
    · rcases HashMap.lookup_insert_some_iff.mp found with ⟨rfl, same⟩ | ⟨_, old⟩
      · simp only [CacheEntry.mk.injEq] at same
        obtain ⟨rfl, rfl, _, rfl⟩ := same
        exact hasPage_of_lookup present
      · exact ⟨lastAccess, old⟩

/-- A lookup that answers returns a page still within its time. -/
theorem get_some {cold : ColdCache} {urlHash : UInt64} {now : Nat} {html : String}
    (answer : (cold.get urlHash now).1 = some html) :
    ∃ url createdAt, cold.HasPage urlHash url html createdAt ∧
      outlived cold.ttl createdAt now = false := by
  unfold get at answer
  split at answer
  · contradiction
  · rename_i entry present
    split_ifs at answer with expired
    obtain rfl := Option.some.inj answer
    exact ⟨entry.url, entry.createdAt, hasPage_of_lookup present, Bool.eq_false_iff.mpr expired⟩

/-- A page within its time is answered. -/
theorem get_of_hasPage {cold : ColdCache} {urlHash : UInt64} {now createdAt : Nat}
    {url html : String} (page : cold.HasPage urlHash url html createdAt)
    (live : outlived cold.ttl createdAt now = false) : (cold.get urlHash now).1 = some html := by
  obtain ⟨lastAccess, found⟩ := page
  simp [get, found, live]

/-- The keys that an insertion evicts before it stores its page. -/
def evictedKeys (cold : ColdCache) (order : ScanOrder) : List UInt64 :=
  if cold.maxEntries ≤ cold.cache.len ∧ cold.evicting = false then
    (cold.victims order).map Prod.snd
  else []

theorem evictBatch_accessCounter (cold : ColdCache) (order : ScanOrder) :
    (cold.evictBatch order).2.accessCounter = cold.accessCounter := by
  unfold evictBatch
  split_ifs <;> rfl

/-- An insertion stores its entry in the map without the evicted keys. -/
theorem insert_cache (cold : ColdCache) (order : ScanOrder) (urlHash : UInt64)
    (url html : String) (now : Nat) :
    (cold.insert order urlHash url html now).2.cache =
      (cold.cache.eraseAll (cold.evictedKeys order)).insert urlHash
        ⟨url, html, cold.accessCounter, now⟩ := by
  unfold insert evictedKeys
  dsimp only
  by_cases full : cold.maxEntries ≤ cold.cache.len
  · rw [if_pos full, evictBatch_accessCounter]
    unfold evictBatch
    cases cold.evicting with
    | true => simp [HashMap.eraseAll]
    | false => simp [full]
  · simp [full, HashMap.eraseAll]

theorem insert_evicted (cold : ColdCache) (order : ScanOrder) (urlHash : UInt64)
    (url html : String) (now : Nat) :
    (cold.insert order urlHash url html now).1 = (cold.evictedKeys order).length := by
  unfold insert evictedKeys
  dsimp only
  by_cases full : cold.maxEntries ≤ cold.cache.len
  · rw [if_pos full]
    unfold evictBatch
    cases cold.evicting <;> simp [full]
  · simp [full]

@[simp] theorem get_maxEntries (cold : ColdCache) (urlHash : UInt64) (now : Nat) :
    (cold.get urlHash now).2.maxEntries = cold.maxEntries := by
  unfold get
  split
  · rfl
  · split_ifs <;> rfl

@[simp] theorem get_evicting (cold : ColdCache) (urlHash : UInt64) (now : Nat) :
    (cold.get urlHash now).2.evicting = cold.evicting := by
  unfold get
  split
  · rfl
  · split_ifs <;> rfl

@[simp] theorem insert_maxEntries (cold : ColdCache) (order : ScanOrder) (urlHash : UInt64)
    (url html : String) (now : Nat) :
    (cold.insert order urlHash url html now).2.maxEntries = cold.maxEntries := by
  unfold insert evictBatch
  dsimp only
  split_ifs <;> rfl

@[simp] theorem insert_evicting (cold : ColdCache) (order : ScanOrder) (urlHash : UInt64)
    (url html : String) (now : Nat) :
    (cold.insert order urlHash url html now).2.evicting = cold.evicting := by
  unfold insert evictBatch
  dsimp only
  split_ifs with full flag
  · rfl
  · exact (Bool.eq_false_iff.mpr flag).symm
  · rfl

/-- An insertion stores its page, and elsewhere leaves exactly the entries
outside the evicted batch. -/
theorem insert_lookup_iff {cold : ColdCache} {order : ScanOrder} {urlHash key : UInt64}
    {url html : String} {now : Nat} {entry : CacheEntry} :
    (cold.insert order urlHash url html now).2.cache.lookup key = some entry ↔
      (key = urlHash ∧ entry = ⟨url, html, cold.accessCounter, now⟩) ∨
        (key ≠ urlHash ∧ key ∉ cold.evictedKeys order ∧ cold.cache.lookup key = some entry) := by
  rw [insert_cache, HashMap.lookup_insert_some_iff, HashMap.lookup_eraseAll_some_iff]

/-- Under another key an insertion changes nothing but what it evicts. -/
theorem insert_lookup_of_ne {cold : ColdCache} {order : ScanOrder} {urlHash key : UInt64}
    {url html : String} {now : Nat} (different : key ≠ urlHash) :
    (cold.insert order urlHash url html now).2.cache.lookup key =
      if key ∈ cold.evictedKeys order then none else cold.cache.lookup key := by
  refine Option.ext fun entry => ?_
  rw [insert_lookup_iff]
  split_ifs with evicted <;> simp [different, evicted]

theorem hasPage_insert {cold : ColdCache} {order : ScanOrder} {urlHash key : UInt64}
    {url html pageUrl pageHtml : String} {now createdAt : Nat}
    (page : (cold.insert order urlHash url html now).2.HasPage key pageUrl pageHtml createdAt) :
    (key = urlHash ∧ pageUrl = url ∧ pageHtml = html ∧ createdAt = now) ∨
      (key ≠ urlHash ∧ cold.HasPage key pageUrl pageHtml createdAt) := by
  obtain ⟨lastAccess, found⟩ := page
  rcases insert_lookup_iff.mp found with ⟨rfl, same⟩ | ⟨different, _, old⟩
  · simp only [CacheEntry.mk.injEq] at same
    exact Or.inl ⟨rfl, same.1, same.2.1, same.2.2.2⟩
  · exact Or.inr ⟨different, lastAccess, old⟩

theorem hasPage_remove {cold : ColdCache} {urlHash key : UInt64} {url html : String}
    {createdAt : Nat} (page : (cold.remove urlHash).2.HasPage key url html createdAt) :
    key ≠ urlHash ∧ cold.HasPage key url html createdAt := by
  obtain ⟨lastAccess, found⟩ := page
  obtain ⟨different, old⟩ := HashMap.lookup_erase_some_iff.mp found
  exact ⟨different, lastAccess, old⟩

/-- The collected keys are those of the entries whose URL has the prefix. -/
theorem mem_keysWithPrefix_iff {cold : ColdCache} {order : ScanOrder} {urlPrefix : String}
    {key : UInt64} :
    key ∈ cold.keysWithPrefix order urlPrefix ↔
      ∃ entry, cold.cache.lookup key = some entry ∧ startsWith entry.url urlPrefix = true := by
  simp only [keysWithPrefix, List.mem_map, List.mem_filter, VisitOrder.mem_visit_iff, Prod.exists,
    HashMap.mem_pairs_iff]
  constructor
  · rintro ⟨candidate, entry, ⟨found, matched⟩, rfl⟩
    exact ⟨entry, found, matched⟩
  · rintro ⟨entry, found, matched⟩
    exact ⟨key, entry, ⟨found, matched⟩, rfl⟩

theorem nodup_keysWithPrefix (cold : ColdCache) (order : ScanOrder) (urlPrefix : String) :
    (cold.keysWithPrefix order urlPrefix).Nodup := by
  have keysEq : cold.cache.pairs.map Prod.fst = cold.cache.keys := by
    rw [HashMap.pairs, List.map_map]
    rfl
  have visited := ((order.perm cold.cache.pairs).map Prod.fst).nodup_iff.mpr
    (keysEq ▸ cold.cache.keys_nodup)
  exact visited.sublist (List.filter_sublist.map Prod.fst)

/-- A prefix removal leaves exactly the pages whose URL lacks the prefix. -/
theorem hasPage_removeByPrefix {cold : ColdCache} {order : ScanOrder} {urlPrefix : String}
    {key : UInt64} {url html : String} {createdAt : Nat}
    (page : (cold.removeByPrefix order urlPrefix).2.HasPage key url html createdAt) :
    startsWith url urlPrefix = false ∧ cold.HasPage key url html createdAt := by
  obtain ⟨lastAccess, found⟩ := page
  obtain ⟨notCollected, old⟩ := HashMap.lookup_eraseAll_some_iff.mp found
  refine ⟨?_, lastAccess, old⟩
  rw [mem_keysWithPrefix_iff] at notCollected
  simpa [old] using notCollected

end RustySsr.Cache.ColdCache
