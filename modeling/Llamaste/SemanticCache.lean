import Mathlib
import Llamaste.Lib.Machine
import Llamaste.Lib.RunningBest
import Llamaste.LlamaInference

/-!
# The semantic cache

Answers of text are kept for ten minutes under a hash of the system prompt and the question of
the user, and given again to a request with the same hash. Requests are handled by threads of
their own: the lookup is one step, the completion and the store are another. The answers that
were kept and given again are also written to a history, which the code does not read. Source:
`child_main.cpp`.

## Main results

* `cacheAnswers_of_along`: an answer from the cache was kept at most ten minutes before, for a
  request whose prompt and question read the same one behind the other.
* `not_sameRequest`: it may have been kept for a request with other settings.
-/

namespace Llamaste

/-! ### Keys -/

/-- `fnv1a_hash`. -/
def fnv1aHash (s : Text) : ℕ :=
  s.foldl (fun hash c => (hash ^^^ c.toNat) * 1099511628211 % 2 ^ 64) 14695981039346656037

/-- What the loop over the messages of a request keeps. -/
structure CacheScan where
  nonSys : ℕ := 0
  userText : Text := []
  sysText : Text := []

/-- The role of a message. An exception is `none`. -/
def roleOf (m : Json) : Option Text := m.value Json.getString "role".toList []

/-- The content of a message. -/
def contentOf (m : Json) : Option Text := m.value Json.getString "content".toList []

/-- One message. -/
def scanMessage (scan : CacheScan) (m : Json) : Option CacheScan := do
  let role ← roleOf m
  if role = "system".toList then do
    let sysText ← contentOf m
    some { scan with sysText }
  else if role = "user".toList then do
    let userText ← contentOf m
    some { scan with userText, nonSys := scan.nonSys + 1 }
  else some { scan with nonSys := scan.nonSys + 1 }

/-- The text whose hash is the key, if the request is one to cache. The separator between its
parts is the empty string: a string literal ends at its zero byte. -/
def keySource (request : Text) : Option (Option Text) :=
  match (Json.parse request).bind requestMessages with
  | none => some none
  | some msgs => do
    let scan ← msgs.foldlM scanMessage {}
    if scan.nonSys ≠ 1 ∨ scan.userText = [] then some none
    else some (some (scan.sysText ++ [] ++ scan.userText))

/-- The key of a text. -/
def cacheKey (source : Text) : Text := Text.ofNat (fnv1aHash source)

/-! ### The cache -/

/-- `SemanticCacheEntry`. -/
structure SemanticCacheEntry where
  response : Text
  timestamp : ℤ

/-- `g_semantic_cache`, in the order of the keys. -/
abbrev SemanticCache := List (Text × SemanticCacheEntry)

/-- `SEMANTIC_CACHE_TTL_SECONDS`. -/
def cacheTtlSeconds : ℤ := 600

/-- `SEMANTIC_CACHE_MAX_ENTRIES`. -/
def cacheMaxEntries : ℕ := 50

/-- The largest `time_t`. -/
def timeMax : ℤ := 2 ^ 63 - 1

namespace SemanticCache

/-- `erase` of a key. -/
def erase (key : Text) (cache : SemanticCache) : SemanticCache :=
  cache.filter fun kv => kv.1 ≠ key

/-- Assignment to the entry of a key. -/
def put (key : Text) (entry : SemanticCacheEntry) : SemanticCache → SemanticCache
  | [] => [(key, entry)]
  | kv :: rest =>
    if key = kv.1 then (key, entry) :: rest
    else if key < kv.1 then (key, entry) :: kv :: rest
    else kv :: put key entry rest

/-- The oldest entry; where no entry is older than the end of time, one without a key. -/
def oldest (cache : SemanticCache) : Text × SemanticCacheEntry :=
  RunningBest.scan (fun kv : Text × SemanticCacheEntry => -kv.2.timestamp) ([], ⟨[], timeMax⟩) cache

/-- Room for one more entry. -/
def evict (cache : SemanticCache) : SemanticCache :=
  if cacheMaxEntries ≤ cache.length then
    if cache.oldest.1 = [] then cache else cache.erase cache.oldest.1
  else cache

end SemanticCache

/-- `semantic_cache_lookup`: the response, empty for a miss, and the cache. -/
def semanticCacheLookup (request : Text) (now : ℤ) (cache : SemanticCache) :
    Option (Text × SemanticCache) := do
  match ← keySource request with
  | none => some ([], cache)
  | some source =>
    match cache.lookup (cacheKey source) with
    | none => some ([], cache)
    | some entry =>
      if now - entry.timestamp > cacheTtlSeconds then some ([], cache.erase (cacheKey source))
      else some (entry.response, cache)

/-- `semantic_cache_store`. -/
def semanticCacheStore (request response : Text) (now : ℤ) (cache : SemanticCache) :
    Option SemanticCache := do
  match ← keySource request with
  | none => some cache
  | some source => some (cache.evict.put (cacheKey source) ⟨response, now⟩)

/-! ### The server -/

/-- Where a request for an inference stands. -/
inductive InferencePc
  | arrived
  | missed
  | answered (response : Option Text)
  deriving DecidableEq

/-- A record of the history: an answer that was kept, or one that was given again. -/
inductive CacheRecord
  | stored (request response : Text) (time : ℤ)
  | hit (request response : Text) (time : ℤ)
  deriving DecidableEq

/-- The request that a record is about. -/
def CacheRecord.request : CacheRecord → Text
  | .stored request _ _ => request
  | .hit request _ _ => request

/-- What the threads share, where each request stands, and the history, its last record
first. -/
structure InferenceServer (ι : Type) where
  clock : ℤ
  cache : SemanticCache := []
  pcs : ι → InferencePc := fun _ => .arrived
  history : List CacheRecord := []

variable {ι : Type}

/-- A request takes its next step, at a time and in a world. The number of calls read so far is
left open. -/
structure InferenceEvent (ι : Type) where
  request : ι
  now : ℤ
  world : Outside
  counter : ℤ := 0

section

variable [DecidableEq ι]

namespace InferenceServer

/-- A request moves on. -/
def goto (s : InferenceServer ι) (i : ι) (pc : InferencePc) : InferenceServer ι :=
  { s with pcs := Function.update s.pcs i pc }

/-- The first step of `llama_inference`: without a model the stub answers, else the cache is
asked. -/
def ask (w : Outside) (request : Text) (i : ι) (now : ℤ) (s : InferenceServer ι) :
    InferenceServer ι :=
  if w.loaded then
    match semanticCacheLookup request now s.cache with
    | none => s.goto i (.answered none)
    | some (response, cache) =>
      if response = [] then { s.goto i .missed with cache }
      else
        { s.goto i (.answered (some response)) with
          cache
          history := .hit request response now :: s.history }
  else s.goto i (.answered (stubInference request))

/-- The rest of `llama_inference`: the engine answers, and an answer of text is kept. -/
def complete (w : Outside) (counter : ℤ) (request : Text) (i : ι) (now : ℤ)
    (s : InferenceServer ι) : InferenceServer ι :=
  match completeRequest w counter request with
  | none => s.goto i (.answered none)
  | some ((response, keep), _) =>
    if keep then
      match semanticCacheStore request response now s.cache with
      | none => s.goto i (.answered none)
      | some cache =>
        { s.goto i (.answered (some response)) with
          cache
          history := .stored request response now :: s.history }
    else s.goto i (.answered (some response))

end InferenceServer

/-- One step of a request. -/
def inferenceStep (requests : ι → Text) (s : InferenceServer ι) (e : InferenceEvent ι) :
    Unit × InferenceServer ι :=
  let s := { s with clock := e.now }
  match s.pcs e.request with
  | .arrived => ((), s.ask e.world (requests e.request) e.request e.now)
  | .missed => ((), s.complete e.world e.counter (requests e.request) e.request e.now)
  | .answered _ => ((), s)

end

/-! ### What a request asks -/

/-- A message of the system. -/
def isSystem (m : Json) : Bool := roleOf m = some "system".toList

/-- A request with one message that is none of the system's: a question of the user. -/
structure AsksOnce (request : Text) (systems : List Text) (user : Text) : Prop where
  asked : user ≠ []
  messages : ∃ msgs m, (Json.parse request).bind requestMessages = some msgs ∧
    (msgs.filter isSystem).map contentOf = systems.map some ∧
    msgs.filter (fun m => !isSystem m) = [m] ∧ roleOf m = some "user".toList ∧
    contentOf m = some user

/-- The last text of a list of them. -/
def lastText (texts : List Text) : Text := texts.getLast?.getD []

theorem user_ne_system : ¬ "user".toList = "system".toList := by decide

theorem lastText_cons (text : Text) (texts : List Text) (prior : Text) :
    (text :: texts).getLast?.getD prior = texts.getLast?.getD text := by
  cases texts <;> rfl

/-- What the loop over the messages keeps: how many are none of the system's, the last text of
the system, and the last text of the user. -/
theorem foldlM_scanMessage {msgs : List Json} {scan scan' : CacheScan}
    (h : msgs.foldlM scanMessage scan = some scan') :
    ∃ systems users : List Text, (msgs.filter isSystem).map contentOf = systems.map some ∧
      ((msgs.filter fun m => !isSystem m).filter fun m => roleOf m = some "user".toList).map
        contentOf = users.map some ∧
      scan'.nonSys = scan.nonSys + (msgs.filter fun m => !isSystem m).length ∧
      scan'.sysText = systems.getLast?.getD scan.sysText ∧
      scan'.userText = users.getLast?.getD scan.userText := by
  induction msgs generalizing scan with
  | nil =>
    obtain rfl : scan = scan' := Option.some.inj h
    exact ⟨[], [], rfl, rfl, rfl, rfl, rfl⟩
  | cons m msgs ih =>
    rw [List.foldlM_cons] at h
    obtain ⟨next, hnext, h⟩ := Option.bind_eq_some_iff.mp h
    obtain ⟨systems, users, hsystems, husers, hcount, hsys, huser⟩ := ih h
    rw [scanMessage] at hnext
    obtain ⟨role, hrole, hnext⟩ := Option.bind_eq_some_iff.mp hnext
    split_ifs at hnext with hsystem hisUser
    · obtain ⟨text, htext, hnext⟩ := Option.bind_eq_some_iff.mp hnext
      obtain rfl := Option.some.inj hnext
      have his : isSystem m = true := by rw [isSystem, hrole, hsystem]; rfl
      refine ⟨text :: systems, users, ?_, ?_, ?_, ?_, huser⟩
      · rw [List.filter_cons_of_pos his, List.map_cons, List.map_cons, hsystems, htext]
      · rw [List.filter_cons_of_neg (by simp [his]), husers]
      · rw [List.filter_cons_of_neg (by simp [his]), hcount]
      · rw [hsys, lastText_cons]
    · obtain ⟨text, htext, hnext⟩ := Option.bind_eq_some_iff.mp hnext
      obtain rfl := Option.some.inj hnext
      have his : isSystem m = false := by
        rw [isSystem, hrole, hisUser]
        exact decide_eq_false fun h => user_ne_system (Option.some.inj h)
      refine ⟨systems, text :: users, ?_, ?_, ?_, hsys, ?_⟩
      · rw [List.filter_cons_of_neg (by simp [his]), hsystems]
      · rw [List.filter_cons_of_pos (by simp [his]),
          List.filter_cons_of_pos (by simp [hrole, hisUser]), List.map_cons, List.map_cons, husers,
          htext]
      · rw [List.filter_cons_of_pos (by simp [his]), List.length_cons, hcount]
        exact Nat.add_right_comm _ _ _
      · rw [huser, lastText_cons]
    · obtain rfl := Option.some.inj hnext
      have his : isSystem m = false := by
        rw [isSystem, hrole]
        exact decide_eq_false fun h => hsystem (Option.some.inj h)
      refine ⟨systems, users, ?_, ?_, ?_, hsys, huser⟩
      · rw [List.filter_cons_of_neg (by simp [his]), hsystems]
      · rw [List.filter_cons_of_pos (by simp [his]),
          List.filter_cons_of_neg (by simpa [hrole] using hisUser), husers]
      · rw [List.filter_cons_of_pos (by simp [his]), List.length_cons, hcount]
        exact Nat.add_right_comm _ _ _

/-- **What the key is made of**: a request with a key asks one question, and the key is the hash
of the last text of the system and the question. -/
theorem asksOnce_of_keySource {request source : Text} (h : keySource request = some (some source)) :
    ∃ systems user, AsksOnce request systems user ∧ source = lastText systems ++ user := by
  rw [keySource] at h
  split at h
  · cases h
  · rename_i msgs hmsgs
    obtain ⟨scan, hscan, h⟩ := Option.bind_eq_some_iff.mp h
    split_ifs at h with hskip
    · cases Option.some.inj h
    obtain ⟨hone, hasked⟩ := not_or.mp hskip
    obtain rfl := Option.some.inj (Option.some.inj h)
    obtain ⟨systems, users, hsystems, husers, hcount, hsys, huser⟩ := foldlM_scanMessage hscan
    obtain ⟨m, hm⟩ := List.length_eq_one_iff.mp
      ((Nat.zero_add _).symm.trans (hcount.symm.trans (not_not.mp hone)))
    rw [hm] at husers
    -- the one message that is none of the system's is the user's, or the text would be empty
    by_cases hrole : roleOf m = some "user".toList
    · rw [List.filter_cons_of_pos (by simp [hrole]), List.filter_nil] at husers
      cases users with
      | nil => cases husers
      | cons user users =>
        obtain ⟨hcontent, hnil⟩ := List.cons.inj husers
        obtain rfl : [] = users := by simpa using hnil
        have htext : scan.userText = user := huser
        refine ⟨systems, user, ⟨htext ▸ hasked, msgs, m, hmsgs, hsystems, hm, hrole, hcontent⟩, ?_⟩
        rw [hsys, htext, List.append_nil]
        rfl
    · rw [List.filter_cons_of_neg (by simpa using hrole), List.filter_nil] at husers
      obtain rfl : [] = users := by simpa using husers
      exact absurd huser hasked

/-! ### What the cache answers with -/

/-- Every answer that was given again was kept at most `SEMANTIC_CACHE_TTL_SECONDS` before, for a
request that is related to the one it was given to. -/
def HitsStored (rel : Text → Text → Prop) : List CacheRecord → Prop
  | [] => True
  | .stored _ _ _ :: earlier => HitsStored rel earlier
  | .hit request response now :: earlier =>
    (∃ request' time, .stored request' response time ∈ earlier ∧ time ≤ now ∧
      now ≤ time + cacheTtlSeconds ∧ rel request request') ∧ HitsStored rel earlier

/-- A relation may be replaced by one that it implies for the requests of a history. -/
theorem HitsStored.mono {rel rel' : Text → Text → Prop} {P : Text → Prop}
    {history : List CacheRecord} (h : HitsStored rel history)
    (hrequests : ∀ record ∈ history, P record.request)
    (himp : ∀ request request', P request → P request' → rel request request' →
      rel' request request') : HitsStored rel' history := by
  induction history with
  | nil => trivial
  | cons record history ih =>
    obtain ⟨hrecord, hearlier⟩ := List.forall_mem_cons.mp hrequests
    cases record with
    | stored request response time => exact ih h hearlier
    | hit request response now =>
      obtain ⟨⟨request', time, hmem, hle, hfresh, hrel⟩, h⟩ := h
      exact ⟨⟨request', time, hmem, hle, hfresh, himp _ _ hrecord (hearlier _ hmem) hrel⟩,
        ih h hearlier⟩

/-- Two requests that each ask one question, the prompts and the questions reading the same one
behind the other. -/
def ReadsSame (request request' : Text) : Prop :=
  ∃ systems user systems' user', AsksOnce request systems user ∧ AsksOnce request' systems' user' ∧
    lastText systems ++ user = lastText systems' ++ user'

/-- Two requests that ask the same question under the same system messages. -/
def AsksSame (request request' : Text) : Prop :=
  ∃ systems user, AsksOnce request systems user ∧ AsksOnce request' systems user

/-- Requests that read the same ask the same. -/
def JoinsApart (requests : ι → Text) : Prop :=
  ∀ i j, ReadsSame (requests i) (requests j) → AsksSame (requests i) (requests j)

/-- The hash tells the texts of the requests apart. -/
def HashesApart (requests : ι → Text) : Prop :=
  Set.InjOn fnv1aHash {source | ∃ i, keySource (requests i) = some (some source)}

/-- The clock does not go back, nor does it reach the end of time. -/
def InTime (s : InferenceServer ι) (e : InferenceEvent ι) : Prop :=
  s.clock ≤ e.now ∧ e.now < timeMax

/-! ### The invariant -/

/-- An entry of the cache holds an answer that was kept. -/
def EntryStored (requests : ι → Text) (history : List CacheRecord)
    (kv : Text × SemanticCacheEntry) : Prop :=
  ∃ i source, keySource (requests i) = some (some source) ∧ kv.1 = cacheKey source ∧
    .stored (requests i) kv.2.response kv.2.timestamp ∈ history

/-- What every step keeps. -/
structure CacheInv (requests : ι → Text) (s : InferenceServer ι) : Prop where
  size : s.cache.length ≤ cacheMaxEntries
  entries : ∀ kv ∈ s.cache, EntryStored requests s.history kv
  past : ∀ kv ∈ s.cache, kv.2.timestamp ≤ s.clock
  clock : s.clock < timeMax
  requests : ∀ record ∈ s.history, ∃ i, record.request = requests i
  answered : HitsStored ReadsSame s.history

theorem EntryStored.mono {requests : ι → Text} {history : List CacheRecord}
    {kv : Text × SemanticCacheEntry} (h : EntryStored requests history kv) (record : CacheRecord) :
    EntryStored requests (record :: history) kv := by
  obtain ⟨i, source, hsource, hkey, hmem⟩ := h
  exact ⟨i, source, hsource, hkey, List.mem_cons_of_mem _ hmem⟩

theorem cacheKey_ne_nil (source : Text) : cacheKey source ≠ [] :=
  List.ne_nil_of_length_pos Nat.length_toDigits_pos

theorem fnv1aHash_eq_of_cacheKey {source source' : Text} (h : cacheKey source = cacheKey source') :
    fnv1aHash source = fnv1aHash source' :=
  Text.ofNat_injective h

namespace SemanticCache

theorem mem_put {key : Text} {entry : SemanticCacheEntry} {cache : SemanticCache}
    {kv : Text × SemanticCacheEntry} (h : kv ∈ cache.put key entry) :
    kv = (key, entry) ∨ kv ∈ cache := by
  induction cache with
  | nil => exact Or.inl (List.mem_singleton.mp h)
  | cons first rest ih =>
    rw [put] at h
    split_ifs at h
    · exact (List.mem_cons.mp h).imp_right (List.mem_cons_of_mem _)
    · exact List.mem_cons.mp h
    · rcases List.mem_cons.mp h with rfl | h
      · exact Or.inr List.mem_cons_self
      · exact (ih h).imp_right (List.mem_cons_of_mem _)

theorem length_put_le (key : Text) (entry : SemanticCacheEntry) (cache : SemanticCache) :
    (cache.put key entry).length ≤ cache.length + 1 := by
  induction cache with
  | nil => exact le_rfl
  | cons first rest ih =>
    rw [put]
    split_ifs
    · exact Nat.le_succ _
    · exact le_rfl
    · exact Nat.succ_le_succ ih

theorem mem_of_mem_evict {cache : SemanticCache} {kv : Text × SemanticCacheEntry}
    (h : kv ∈ cache.evict) : kv ∈ cache := by
  rw [evict] at h
  split_ifs at h
  · exact h
  · exact (List.mem_filter.mp h).1
  · exact h

/-- Before the end of time the oldest entry of a cache is one of its entries. -/
theorem oldest_mem {cache : SemanticCache} (hne : cache ≠ [])
    (hpast : ∀ kv ∈ cache, kv.2.timestamp < timeMax) : cache.oldest ∈ cache := by
  have hscan : cache.oldest ∈ ([], ⟨[], timeMax⟩) :: cache := RunningBest.scan_mem _ _
  rcases List.mem_cons.mp hscan with heq | hmem
  · obtain ⟨kv, hkv⟩ := List.exists_mem_of_ne_nil cache hne
    have hle : -kv.2.timestamp ≤ -cache.oldest.2.timestamp :=
      @RunningBest.rank_le_scan _ _ _ (fun kv : Text × SemanticCacheEntry => -kv.2.timestamp)
        ([], ⟨[], timeMax⟩) cache kv (List.mem_cons_of_mem _ hkv)
    rw [heq] at hle
    have hlt := hpast kv hkv
    simp only at hle
    omega
  · exact hmem

/-- Room is made: an entry is evicted from a full cache. -/
theorem length_evict_lt {cache : SemanticCache} (hsize : cache.length ≤ cacheMaxEntries)
    (hkeys : ∀ kv ∈ cache, kv.1 ≠ []) (hpast : ∀ kv ∈ cache, kv.2.timestamp < timeMax) :
    cache.evict.length < cacheMaxEntries := by
  rw [evict]
  split_ifs with hfull hkey
  · have hne : cache ≠ [] := by
      rintro rfl
      exact absurd hfull (by decide)
    exact absurd hkey (hkeys _ (oldest_mem hne hpast))
  · have hne : cache ≠ [] := by
      rintro rfl
      exact absurd hfull (by decide)
    have hlt : (cache.erase cache.oldest.1).length < cache.length :=
      List.length_filter_lt_length_iff_exists.mpr ⟨_, oldest_mem hne hpast, by simp⟩
    omega
  · omega

end SemanticCache

/-- **What a lookup does**: entries are only lost, and an answer is that of a fresh entry under
the key of the request. -/
theorem lookup_cases {request response : Text} {now : ℤ} {cache cache' : SemanticCache}
    (h : semanticCacheLookup request now cache = some (response, cache')) :
    (response = [] ∧ cache'.Sublist cache) ∨ (cache' = cache ∧ ∃ source entry,
      keySource request = some (some source) ∧ (cacheKey source, entry) ∈ cache ∧
        response = entry.response ∧ now ≤ entry.timestamp + cacheTtlSeconds) := by
  rw [semanticCacheLookup] at h
  obtain ⟨source, hsource, h⟩ := Option.bind_eq_some_iff.mp h
  cases source with
  | none =>
    obtain ⟨rfl, rfl⟩ := Prod.mk.inj (Option.some.inj h)
    exact Or.inl ⟨rfl, .refl _⟩
  | some source =>
    cases hentry : cache.lookup (cacheKey source) with
    | none =>
      simp only [hentry] at h
      obtain ⟨rfl, rfl⟩ := Prod.mk.inj (Option.some.inj h)
      exact Or.inl ⟨rfl, .refl _⟩
    | some entry =>
      simp only [hentry] at h
      split_ifs at h with hold
      · obtain ⟨rfl, rfl⟩ := Prod.mk.inj (Option.some.inj h)
        exact Or.inl ⟨rfl, List.filter_sublist⟩
      · obtain ⟨rfl, rfl⟩ := Prod.mk.inj (Option.some.inj h)
        obtain ⟨l, r, hcache, -⟩ := List.lookup_eq_some_iff.mp hentry
        refine Or.inr ⟨rfl, source, entry, hsource, ?_, rfl, by omega⟩
        rw [hcache]
        simp

/-- **What a store does**: nothing, or an entry is put where room is. -/
theorem store_cases {request response : Text} {now : ℤ} {cache cache' : SemanticCache}
    (h : semanticCacheStore request response now cache = some cache') :
    cache' = cache ∨ ∃ source, keySource request = some (some source) ∧
      cache' = cache.evict.put (cacheKey source) ⟨response, now⟩ := by
  rw [semanticCacheStore] at h
  obtain ⟨source, hsource, h⟩ := Option.bind_eq_some_iff.mp h
  cases source with
  | none => exact Or.inl (Option.some.inj h).symm
  | some source => exact Or.inr ⟨source, hsource, (Option.some.inj h).symm⟩

variable {requests : ι → Text} {s : InferenceServer ι} {now : ℤ}

theorem CacheInv.advance (h : CacheInv requests s) (hle : s.clock ≤ now) (hlt : now < timeMax) :
    CacheInv requests { s with clock := now } where
  size := h.size
  entries := h.entries
  past kv hkv := (h.past kv hkv).trans hle
  clock := hlt
  requests := h.requests
  answered := h.answered

/-- Entries are lost. -/
theorem CacheInv.sublist (h : CacheInv requests s) {cache : SemanticCache}
    (hsub : cache.Sublist s.cache) (pcs : ι → InferencePc) :
    CacheInv requests { s with cache, pcs } where
  size := hsub.length_le.trans h.size
  entries kv hkv := h.entries kv (hsub.subset hkv)
  past kv hkv := h.past kv (hsub.subset hkv)
  clock := h.clock
  requests := h.requests
  answered := h.answered

theorem CacheInv.goto [DecidableEq ι] (h : CacheInv requests s) (i : ι) (pc : InferencePc) :
    CacheInv requests (s.goto i pc) :=
  h.sublist (.refl _) _

/-- A record that is added names a request of the run. -/
theorem CacheInv.requests_cons (h : CacheInv requests s) {record : CacheRecord} {i : ι}
    (hrecord : record.request = requests i) :
    ∀ r ∈ record :: s.history, ∃ i, r.request = requests i :=
  List.forall_mem_cons.mpr ⟨⟨i, hrecord⟩, h.requests⟩

/-- An answer from the cache. -/
theorem CacheInv.hit (h : CacheInv requests s) (hhash : HashesApart requests) {i : ι}
    {source : Text} {entry : SemanticCacheEntry}
    (hsource : keySource (requests i) = some (some source))
    (hentry : (cacheKey source, entry) ∈ s.cache)
    (hfresh : s.clock ≤ entry.timestamp + cacheTtlSeconds) (pcs : ι → InferencePc) :
    CacheInv requests { s with
      pcs, history := .hit (requests i) entry.response s.clock :: s.history } where
  size := h.size
  entries kv hkv := (h.entries kv hkv).mono _
  past := h.past
  clock := h.clock
  requests := h.requests_cons rfl
  answered := by
    obtain ⟨j, source', hsource', hkey, hmem⟩ := h.entries _ hentry
    obtain rfl := hhash ⟨i, hsource⟩ ⟨j, hsource'⟩ (fnv1aHash_eq_of_cacheKey hkey)
    obtain ⟨systems, user, hasks, hread⟩ := asksOnce_of_keySource hsource
    obtain ⟨systems', user', hasks', hread'⟩ := asksOnce_of_keySource hsource'
    exact ⟨⟨requests j, entry.timestamp, hmem, h.past _ hentry, hfresh, systems, user, systems',
      user', hasks, hasks', hread.symm.trans hread'⟩, h.answered⟩

/-- An answer that is kept. -/
theorem CacheInv.store (h : CacheInv requests s) {i : ι} {response : Text} {cache : SemanticCache}
    (hstore : semanticCacheStore (requests i) response s.clock s.cache = some cache)
    (pcs : ι → InferencePc) :
    CacheInv requests { s with
      pcs, cache, history := .stored (requests i) response s.clock :: s.history } := by
  have hrequests : ∀ r ∈ CacheRecord.stored (requests i) response s.clock :: s.history,
      ∃ i, r.request = requests i := h.requests_cons rfl
  rcases store_cases hstore with rfl | ⟨source, hsource, rfl⟩
  · exact ⟨h.size, fun kv hkv => (h.entries kv hkv).mono _, h.past, h.clock, hrequests,
      h.answered⟩
  · refine ⟨?_, fun kv hkv => ?_, fun kv hkv => ?_, h.clock, hrequests, h.answered⟩
    · have hkeys : ∀ kv ∈ s.cache, kv.1 ≠ [] := by
        intro kv hkv
        obtain ⟨-, source', -, hkey, -⟩ := h.entries kv hkv
        exact hkey ▸ cacheKey_ne_nil source'
      have hroom := SemanticCache.length_evict_lt h.size hkeys
        fun kv hkv => (h.past kv hkv).trans_lt h.clock
      exact (SemanticCache.length_put_le _ _ _).trans hroom
    · rcases SemanticCache.mem_put hkv with rfl | hkv
      · exact ⟨i, source, hsource, rfl, List.mem_cons_self⟩
      · exact (h.entries kv (SemanticCache.mem_of_mem_evict hkv)).mono _
    · rcases SemanticCache.mem_put hkv with rfl | hkv
      · exact le_rfl
      · exact h.past kv (SemanticCache.mem_of_mem_evict hkv)

/-- The clock shows the time of the last step. -/
theorem clock_inferenceStep [DecidableEq ι] (requests : ι → Text) (s : InferenceServer ι)
    (e : InferenceEvent ι) : (inferenceStep requests s e).2.clock = e.now := by
  rw [inferenceStep]
  split
  · rw [InferenceServer.ask]
    repeat' split
    all_goals rfl
  · rw [InferenceServer.complete]
    repeat' split
    all_goals rfl
  · rfl

/-- **Step lemma.** -/
theorem cacheInv_step [DecidableEq ι] (hhash : HashesApart requests) {e : InferenceEvent ι}
    (h : CacheInv requests s) (htime : InTime s e) :
    CacheInv requests (inferenceStep requests s e).2 := by
  have hnow := h.advance htime.1 htime.2
  rw [inferenceStep]
  split
  · rw [InferenceServer.ask]
    split_ifs
    · split
      · exact hnow.goto _ _
      · rename_i response cache hlookup
        rcases lookup_cases hlookup with ⟨rfl, hsub⟩ | ⟨rfl, source, entry, hsource, hentry, rfl,
          hfresh⟩
        · rw [if_pos rfl]
          exact hnow.sublist hsub _
        · split_ifs
          · exact hnow.goto _ _
          · exact hnow.hit hhash hsource hentry hfresh _
    · exact hnow.goto _ _
  · rw [InferenceServer.complete]
    split
    · exact hnow.goto _ _
    · split_ifs
      · split
        · exact hnow.goto _ _
        · rename_i hstore
          exact hnow.store hstore _
      · exact hnow.goto _ _
  · exact hnow

/-! ### Runs -/

/-- **What the cache answers with.** In every run whose clock does not go back, the cache holds
no more than `SEMANTIC_CACHE_MAX_ENTRIES` entries, and every answer from it was kept at most
`SEMANTIC_CACHE_TTL_SECONDS` before for a request with one question, the last system text and
the question reading the same; where requests that read the same ask the same, for the same
question under the same system messages. -/
theorem cacheAnswers_of_along [DecidableEq ι] (requests : ι → Text)
    (hhash : HashesApart requests) (start : ℤ) (hstart : start < timeMax)
    (es : List (InferenceEvent ι))
    (htime : Machine.Along (inferenceStep requests) InTime { clock := start } es) :
    (Machine.final (inferenceStep requests) { clock := start } es).cache.length ≤
        cacheMaxEntries ∧
      HitsStored ReadsSame
        (Machine.final (inferenceStep requests) { clock := start } es).history ∧
      (JoinsApart requests → HitsStored AsksSame
        (Machine.final (inferenceStep requests) { clock := start } es).history) := by
  have hinit : CacheInv requests { clock := start } :=
    ⟨Nat.zero_le _, nofun, nofun, hstart, nofun, trivial⟩
  have h := htime.final_invariant (fun _ _ ht hs => cacheInv_step hhash hs ht) hinit
  refine ⟨h.size, h.answered, fun hjoins => h.answered.mono
    (P := fun request => ∃ i, request = requests i) h.requests ?_⟩
  rintro _ _ ⟨i, rfl⟩ ⟨j, rfl⟩ hreads
  exact hjoins i j hreads

/-! ### Settings -/

/-- The settings of a request: how many tokens, at what temperature, with which tools. -/
def settingsOf (request : Text) : Option (Option ℤ × Option Json × Option Json) :=
  (Json.parse request).map fun req =>
    (req.value Json.getInt32 "max_tokens".toList 2048,
      req.value (getNumber true) "temperature".toList requestTemperature,
      req.value some "tools".toList (.arr []))

/-- Two requests that ask the same with the same settings. -/
def SameRequest (request request' : Text) : Prop :=
  AsksSame request request' ∧ settingsOf request = settingsOf request'

/-- A question with a limit of tokens. -/
def limitedQuestion (limit : Text) : Text :=
  "\x7b\"max_tokens\":".toList ++ limit ++
    ",\"messages\":[\x7b\"role\":\"user\",\"content\":\"a\"\x7d]\x7d".toList

/-- An engine that always answers the same. -/
def steadyEngine : Outside where
  loaded := true
  post _ := some (200, "\x7b\"content\":\"b\"\x7d".toList)
  retryPost _ := none
  created := 0
  single := id
  cooler := id

/-- Two requests of one question, with different limits. -/
def limitedQuestions (large : Bool) : Text :=
  limitedQuestion (if large then "2".toList else "1".toList)

/-- The first request is answered by the engine, the second one at the same time. -/
@[irreducible] def limitedRun : List (InferenceEvent Bool) :=
  [⟨false, 0, steadyEngine, 0⟩, ⟨false, 0, steadyEngine, 0⟩, ⟨true, 0, steadyEngine, 0⟩]

theorem keySource_limitedQuestions (large : Bool) :
    keySource (limitedQuestions large) = some (some "a".toList) := by
  cases large <;> decide +kernel

theorem hashesApart_limitedQuestions : HashesApart limitedQuestions := by
  rintro _ ⟨i, hi⟩ _ ⟨j, hj⟩ -
  rw [keySource_limitedQuestions] at hi hj
  exact Option.some.inj (Option.some.inj (hi.symm.trans hj))

theorem inTime_limitedRun :
    Machine.Along (inferenceStep limitedQuestions) InTime { clock := 0 } limitedRun := by
  have hlate : (0 : ℤ) < timeMax := by decide
  rw [limitedRun]
  refine ⟨⟨le_rfl, hlate⟩, ⟨?_, hlate⟩, ⟨?_, hlate⟩, trivial⟩
  all_goals exact (clock_inferenceStep _ _ _).le

theorem cacheAnswers_of_along_sample :
    (Machine.final (inferenceStep limitedQuestions) { clock := 0 } limitedRun).cache.length ≤
        cacheMaxEntries ∧
      HitsStored ReadsSame
        (Machine.final (inferenceStep limitedQuestions) { clock := 0 } limitedRun).history ∧
      (JoinsApart limitedQuestions → HitsStored AsksSame
        (Machine.final (inferenceStep limitedQuestions) { clock := 0 } limitedRun).history) :=
  cacheAnswers_of_along limitedQuestions hashesApart_limitedQuestions 0 (by decide) limitedRun
    inTime_limitedRun

/-- The second request is answered from the cache, with what the first one got. -/
theorem history_limitedRun :
    ∃ response, (Machine.final (inferenceStep limitedQuestions) { clock := 0 } limitedRun).history =
      [.hit (limitedQuestions true) response 0, .stored (limitedQuestions false) response 0] := by
  have hrun : ((completeRequest steadyEngine 0 (limitedQuestions false)).bind fun r =>
      if (Machine.final (inferenceStep limitedQuestions) { clock := 0 } limitedRun).history =
        [.hit (limitedQuestions true) r.1.1 0, .stored (limitedQuestions false) r.1.1 0]
      then some true else none) = some true := by decide +kernel
  obtain ⟨r, -, hr⟩ := Option.bind_eq_some_iff.mp hrun
  exact ⟨r.1.1, by_contra fun hne => by rw [if_neg hne] at hr; cases hr⟩

/-- An answer that was given again right after the first store. -/
theorem HitsStored.rel_of_pair {rel : Text → Text → Prop}
    {request request' response response' : Text} {now time : ℤ}
    (h : HitsStored rel [.hit request response now, .stored request' response' time]) :
    rel request request' := by
  obtain ⟨⟨stored, t, hmem, -, -, hrel⟩, -⟩ := h
  obtain ⟨rfl, -, -⟩ := CacheRecord.stored.inj (List.mem_singleton.mp hmem)
  exact hrel

/-- **An answer may be given again under other settings.** -/
theorem not_sameRequest : ¬ ∀ (requests : Bool → Text), HashesApart requests →
    ∀ es, Machine.Along (inferenceStep requests) InTime { clock := 0 } es →
      HitsStored SameRequest
        (Machine.final (inferenceStep requests) { clock := 0 } es).history := by
  intro h
  have hanswered := h limitedQuestions hashesApart_limitedQuestions limitedRun inTime_limitedRun
  obtain ⟨response, hhistory⟩ := history_limitedRun
  rw [hhistory] at hanswered
  have hsame : SameRequest (limitedQuestions true) (limitedQuestions false) :=
    hanswered.rel_of_pair
  have htokens : (settingsOf (limitedQuestions true)).map Prod.fst =
      (settingsOf (limitedQuestions false)).map Prod.fst := by rw [hsame.2]
  revert htokens
  decide +kernel

end Llamaste
