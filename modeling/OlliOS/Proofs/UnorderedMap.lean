import OlliOS.Kstd.FiniteMap

/-!
# `unordered_map` is a finite map

When a map grows, the entries of a bucket go to two buckets, none of which gets more entries than the old
one had.
-/

namespace OlliOS

open Function List Assoc MapCall UnorderedMap Except

namespace UnorderedMap

variable {K V : Type} [BEq K] {hash : K → UInt32} {map : UnorderedMap K V} {k : K} {v : V} {depth : ℕ}
  {l : List (K × V)}

omit [BEq K] in
lemma bucket_eq : bucket hash map k = (hash k).toNat % map.numBuckets.toNat := UInt32.toNat_mod _ _

lemma lookup_eq : lookup hash map k = get (map.buckets (bucket hash map k)) k := rfl

namespace Ok

lemma numBuckets_pos (h : map.Ok hash) : 0 < map.numBuckets.toNat := by
  have hshape := h.shape
  have hsize := h.size
  omega

lemma bucket_lt (h : map.Ok hash) : bucket hash map k < map.numBuckets.toNat := by
  exact Nat.mod_lt _ h.numBuckets_pos

lemma bucketSize_lt (h : map.Ok hash) : map.bucketSize.toNat < 0x10000 := by
  have hmemory := h.memory
  rw [h.shape] at hmemory
  by_contra hge
  have hmul := Nat.mul_le_mul (Nat.not_lt.1 hge) (Nat.not_lt.1 hge)
  rw [Nat.mul_assoc] at hmemory
  omega

end Ok

def ofEntries (hash : K → UInt32) (numBuckets bucketSize : UInt32) (l : List (K × V)) : UnorderedMap K V :=
  ⟨numBuckets, bucketSize, fun b => l.filter fun e => (hash e.1 % numBuckets).toNat = b⟩

omit [BEq K] in
lemma append_ofEntries {n s : UInt32} :
    append hash (ofEntries hash n s l) k v = ofEntries hash n s (l ++ [(k, v)]) := by
  unfold append ofEntries
  congr 1
  funext b
  rcases eq_or_ne b (hash k % n).toNat with rfl | hne
  · simp [bucket, filter_append]
  · have hnew : [(k, v)].filter (fun e => (hash e.1 % n).toNat = b) = [] :=
      filter_eq_nil_iff.2 fun e he => by
        obtain rfl := mem_singleton.1 he
        simpa using hne.symm
    refine (update_of_ne hne _ _).trans ?_
    rw [filter_append, hnew, append_nil]

omit [BEq K] in
lemma foldlM_put {n s : UInt32} (depth : ℕ) (l : List (K × V))
    (hroom : ∀ b, (l.filter fun e => (hash e.1 % n).toNat = b).length < s.toNat) :
    l.foldlM (fun map e => put hash depth map e.1 e.2) (ofEntries hash n s []) = .ok (ofEntries hash n s l) := by
  induction l using List.reverseRecOn with
  | nil => rfl
  | append_singleton l e ih =>
    have hless : ∀ b, (l.filter fun e => (hash e.1 % n).toNat = b).length < s.toNat := fun b => by
      have hb := hroom b
      rw [filter_append, length_append] at hb
      omega
    rw [foldlM_append, ih hless]
    have hput : put hash depth (ofEntries hash n s l) e.1 e.2 = .ok (append hash (ofEntries hash n s l) e.1 e.2) := by
      rw [put.eq_def]
      exact if_neg (Nat.not_le.2 (hless _))
    show put hash depth (ofEntries hash n s l) e.1 e.2 >>= pure = _
    rw [hput, append_ofEntries]
    rfl

omit [BEq K] in
lemma flatMap_range_of_unique {α : Type*} {g : ℕ → List α} {c : ℕ} (h : ∀ b, b ≠ c → g b = []) :
    ∀ n, (List.range n).flatMap g = if c < n then g c else []
  | 0 => rfl
  | n + 1 => by
    rw [range_succ, flatMap_append, flatMap_range_of_unique h n, flatMap_singleton]
    rcases Nat.lt_trichotomy c n with hlt | rfl | hgt
    · rw [if_pos hlt, if_pos (by omega), h n (by omega), append_nil]
    · rw [if_neg (Nat.lt_irrefl c), if_pos (Nat.lt_succ_self c), nil_append]
    · rw [if_neg (by omega), if_neg (by omega), h n (by omega), append_nil]

lemma Ok.filter_entries (h : map.Ok hash) (p : K × V → Bool) {c : ℕ} (hc : c < map.numBuckets.toNat)
    (hp : ∀ e, p e = true → bucket hash map e.1 = c) : map.entries.filter p = (map.buckets c).filter p := by
  have hother : ∀ b, b ≠ c → (map.buckets b).filter p = [] := by
    intro b hb
    refine filter_eq_nil_iff.2 fun e he hpe => hb ?_
    rw [← h.placed b e he, hp e hpe]
  rw [entries, filter_flatMap, flatMap_range_of_unique hother, if_pos hc]

def larger (hash : K → UInt32) (map : UnorderedMap K V) : UnorderedMap K V :=
  ofEntries hash (map.numBuckets * 2) (map.bucketSize * 2) map.entries

namespace Ok

variable (h : map.Ok hash)
include h

lemma double : (map.numBuckets * 2).toNat = map.numBuckets.toNat * 2 ∧
    (map.bucketSize * 2).toNat = map.bucketSize.toNat * 2 := by
  have hsize := h.bucketSize_lt
  have hshape := h.shape
  have htwo : (2 : UInt32).toNat = 2 := rfl
  rw [UInt32.toNat_mul, UInt32.toNat_mul, htwo]
  omega

lemma bucket_larger (k : K) : bucket hash (larger hash map) k % map.numBuckets.toNat = bucket hash map k := by
  rw [bucket_eq, bucket_eq]
  show (hash k).toNat % (map.numBuckets * 2).toNat % _ = _
  rw [h.double.1, Nat.mod_mul_right_mod]

lemma buckets_larger (b : ℕ) : (larger hash map).buckets b =
    (map.buckets (b % map.numBuckets.toNat)).filter fun e => bucket hash (larger hash map) e.1 = b := by
  refine h.filter_entries _ (Nat.mod_lt _ h.numBuckets_pos) fun e he => ?_
  have hb : bucket hash (larger hash map) e.1 = b := of_decide_eq_true he
  rw [← h.bucket_larger, hb]

lemma length_larger (b : ℕ) :
    ((larger hash map).buckets b).length ≤ (map.buckets (b % map.numBuckets.toNat)).length := by
  rw [h.buckets_larger]
  exact length_filter_le _ _

lemma lookup_larger (hagree : ∀ a b : K, (a == b) = true → hash a = hash b) :
    lookup hash (larger hash map) = lookup hash map := by
  funext k
  rw [lookup_eq, h.buckets_larger, h.bucket_larger, lookup_eq]
  refine get_filter fun e _ he => decide_eq_true ?_
  rw [bucket_eq, bucket_eq, hagree k e.1 he]

lemma increaseSize_eq (depth : ℕ) :
    increaseSize hash map depth = .ok (larger hash map) ∧ (larger hash map).Ok hash ∨
    increaseSize hash map depth = .error .noMemory ∧ 0x4000 ≤ map.bucketSize.toNat := by
  obtain ⟨hn, hs⟩ := h.double
  have hshape := h.shape
  have hsize := h.size
  by_cases hmemory : (map.numBuckets * 2).toNat * (map.bucketSize * 2).toNat < 0x100000000
  · have hroom : ∀ b, ((larger hash map).buckets b).length < (map.bucketSize * 2).toNat := by
      intro b
      have hlen := h.length_larger b
      have hused := h.used (b % map.numBuckets.toNat)
      omega
    refine .inl ⟨?_, ?_, ?_, hmemory, fun b => Nat.le_of_lt (hroom b), fun b e he => ?_, fun b => ?_⟩
    · rw [increaseSize, grow, allocateBuckets, if_pos hmemory]
      exact foldlM_put depth map.entries hroom
    · show (map.numBuckets * 2).toNat = 2 * (map.bucketSize * 2).toNat
      omega
    · show 8 ≤ (map.bucketSize * 2).toNat
      omega
    · exact of_decide_eq_true (mem_filter.1 he).2
    · rw [h.buckets_larger]
      exact (h.once _).sublist filter_sublist
  · refine .inr ⟨?_, ?_⟩
    · rw [increaseSize, grow, allocateBuckets, if_neg hmemory]
      rfl
    · by_contra hlt
      refine hmemory ?_
      rw [hn, hs, hshape]
      calc 2 * map.bucketSize.toNat * 2 * (map.bucketSize.toNat * 2)
          ≤ 2 * 0x3fff * 2 * (0x3fff * 2) := Nat.mul_le_mul (by omega) (by omega)
        _ < 0x100000000 := by decide

end Ok

def setBucket (hash : K → UInt32) (map : UnorderedMap K V) (k : K) (l : List (K × V)) : UnorderedMap K V :=
  { map with buckets := update map.buckets (bucket hash map k) l }

omit [BEq K] in
lemma buckets_setBucket_self : (setBucket hash map k l).buckets (bucket hash map k) = l := update_self ..

omit [BEq K] in
lemma buckets_setBucket_of_ne {b : ℕ} (hb : b ≠ bucket hash map k) :
    (setBucket hash map k l).buckets b = map.buckets b := update_of_ne hb ..

lemma Ok.setBucket (h : map.Ok hash) (hlen : l.length ≤ map.bucketSize.toNat)
    (hplaced : ∀ e ∈ l, bucket hash map e.1 = bucket hash map k) (honce : Assoc.Distinct l) :
    (setBucket hash map k l).Ok hash where
  shape := h.shape
  size := h.size
  memory := h.memory
  used := (forall_update_iff map.buckets fun _ l => l.length ≤ map.bucketSize.toNat).2
    ⟨hlen, fun b _ => h.used b⟩
  placed := (forall_update_iff map.buckets fun b l => ∀ e ∈ l, bucket hash map e.1 = b).2
    ⟨hplaced, fun b _ => h.placed b⟩
  once := (forall_update_iff _ fun _ l => Assoc.Distinct l).2 ⟨honce, fun b _ => h.once b⟩

omit [BEq K] in
/-- A bound on the buckets holds with a new one if it holds of that. -/
lemma length_setBucket_le {c : ℕ} (hlen : l.length ≤ c) (hc : ∀ b, (map.buckets b).length ≤ c) (b : ℕ) :
    ((setBucket hash map k l).buckets b).length ≤ c :=
  (forall_update_iff map.buckets fun _ l => l.length ≤ c).2 ⟨hlen, fun b _ => hc b⟩ b

lemma lookup_setBucket {g : K → Option V} (hsame : ∀ k', bucket hash map k' = bucket hash map k → get l k' = g k')
    (hother : ∀ k', bucket hash map k' ≠ bucket hash map k → lookup hash map k' = g k') :
    lookup hash (setBucket hash map k l) = g := by
  funext k'
  show get ((setBucket hash map k l).buckets (bucket hash map k')) k' = g k'
  by_cases hk : bucket hash map k' = bucket hash map k
  · rw [hk, buckets_setBucket_self]
    exact hsame k' hk
  · rw [buckets_setBucket_of_ne hk]
    exact hother k' hk

lemma exists_of_find {i : ℕ} (hfind : find hash map k = some i) :
    ∃ l1 e l2, map.buckets (bucket hash map k) = l1 ++ e :: l2 ∧ l1.length = i ∧ (k == e.1) = true ∧
      lookup hash map k = some e.2 := by
  obtain ⟨l1, e, l2, hl, hi, hk, hnone⟩ := exists_of_findIdx? hfind
  refine ⟨l1, e, l2, hl, hi, hk, ?_⟩
  rw [lookup_eq, hl, get_append, hnone, Option.none_or, get_cons_self hk]

structure Indexed [Inhabited V] (hash : K → UInt32) (map : UnorderedMap K V) (k : K)
    (r : UnorderedMap K V × ℕ) : Prop where
  ok : r.1.Ok hash
  found : find hash r.1 k = some r.2
  lookup_eq : lookup hash r.1 = insert (lookup hash map) k ((lookup hash map k).getD default)
  used : ∀ c, (∀ b, (map.buckets b).length ≤ c) → ∀ b, (r.1.buckets b).length ≤ c + 1

section Agree

variable (hagree : ∀ a b : K, (a == b) = true → hash a = hash b)
include hagree

lemma bucket_congr {k' : K} (hk : (k == k') = true) : bucket hash map k = bucket hash map k' := by
  rw [bucket_eq, bucket_eq, hagree k k' hk]

lemma beq_of_bucket_ne {k' : K} (hne : bucket hash map k' ≠ bucket hash map k) : (k == k') = false :=
  Bool.eq_false_iff.2 fun hk => hne (bucket_congr hagree hk).symm

lemma lookup_setBucket_insert (hl : Assoc.get l = Assoc.insert (Assoc.get (map.buckets (bucket hash map k))) k v) :
    lookup hash (setBucket hash map k l) = insert (lookup hash map) k v := by
  refine lookup_setBucket (fun k' hk => ?_) fun k' hne => ?_
  · rw [hl, Assoc.insert, Assoc.insert, lookup_eq, hk]
  · rw [Assoc.insert, beq_of_bucket_ne hagree hne]
    rfl

lemma lookup_setBucket_erase (hl : Assoc.get l = Assoc.erase (Assoc.get (map.buckets (bucket hash map k))) k) :
    lookup hash (setBucket hash map k l) = Assoc.erase (lookup hash map) k := by
  refine lookup_setBucket (fun k' hk => ?_) fun k' hne => ?_
  · rw [hl, Assoc.erase, Assoc.erase, lookup_eq, hk]
  · rw [Assoc.erase, beq_of_bucket_ne hagree hne]
    rfl

variable [EquivBEq K]

lemma lookup_congr {k' : K} (hk : (k == k') = true) : lookup hash map k = lookup hash map k' := by
  rw [lookup_eq, lookup_eq, bucket_congr hagree hk]
  unfold Assoc.get
  congr 2
  funext e
  exact BEq.congr_left hk

lemma insert_lookup (hv : lookup hash map k = some v) : Assoc.insert (lookup hash map) k v = lookup hash map := by
  funext k'
  rw [Assoc.insert]
  rcases hk : k == k' with _ | _
  · rfl
  · rw [← lookup_congr hagree hk, hv]
    rfl

variable [Inhabited V]

lemma index_of_room (h : map.Ok hash)
    (hroom : find hash map k = none → (map.buckets (bucket hash map k)).length < map.bucketSize.toNat)
    (depth : ℕ) : ∃ r, index hash depth map k = .ok r ∧ Indexed hash map k r := by
  rcases hfind : find hash map k with _ | i
  · have hnone : lookup hash map k = none := get_eq_none_of_findIdx? hfind
    have hlt := hroom hfind
    refine ⟨(append hash map k default, (map.buckets (bucket hash map k)).length), ?_, ?_⟩
    · rw [index.eq_def]
      simp only [hfind]
      exact if_neg (Nat.not_le.2 hlt)
    have happend : append hash map k default =
      setBucket hash map k (map.buckets (bucket hash map k) ++ [(k, default)]) := rfl
    constructor
    · refine h.setBucket ?_ (fun e he => ?_) ((h.once _).append_single hnone)
      · rw [length_append, length_singleton]
        omega
      · rcases mem_append.1 he with he | he
        · exact h.placed _ e he
        · rw [mem_singleton.1 he]
    · show ((setBucket hash map k _).buckets (bucket hash map k)).findIdx? _ = _
      rw [buckets_setBucket_self, findIdx?_append]
      have hold : (map.buckets (bucket hash map k)).findIdx? (fun e => k == e.1) = none := hfind
      rw [hold]
      simp
    · rw [happend, hnone]
      exact lookup_setBucket_insert hagree (get_append_single hnone)
    · intro c hc
      refine length_setBucket_le ?_ fun b => Nat.le_succ_of_le (hc b)
      rw [length_append, length_singleton]
      exact Nat.succ_le_succ (hc _)
  · obtain ⟨e, -, hsome⟩ := get_eq_some_of_findIdx? hfind
    have hlookup : lookup hash map k = some e.2 := hsome
    refine ⟨(map, i), by rw [index.eq_def]; simp only [hfind], h, hfind, ?_, fun c hc b => Nat.le_succ_of_le (hc b)⟩
    rw [hlookup]
    exact (insert_lookup hagree hlookup).symm

lemma index_spec (h : map.Ok hash) (k : K) (hdepth : 1 ≤ depth) :
    (∃ r, index hash depth map k = .ok r ∧ Indexed hash map k r) ∨
    index hash depth map k = .error .noMemory ∧ ∃ b, 0x4000 ≤ (map.buckets b).length := by
  obtain ⟨depth, rfl⟩ := Nat.exists_eq_add_of_le' hdepth
  by_cases hfull : find hash map k = none ∧ map.bucketSize.toNat ≤ (map.buckets (bucket hash map k)).length
  · obtain ⟨hfind, hfull⟩ := hfull
    have hindex : index hash (depth + 1) map k = increaseSize hash map depth >>= (index hash depth · k) := by
      rw [index.eq_def]
      simp only [hfind]
      exact if_pos hfull
    rcases h.increaseSize_eq depth with ⟨heq, hok⟩ | ⟨heq, hlarge⟩
    · refine .inl ?_
      have hlen : ∀ b, ((larger hash map).buckets b).length < (larger hash map).bucketSize.toNat := by
        intro b
        have hle := h.length_larger b
        have hused := h.used (b % map.numBuckets.toNat)
        have hsize := h.size
        show _ < (map.bucketSize * 2).toNat
        rw [h.double.2]
        omega
      obtain ⟨r, hr, hindexed⟩ := index_of_room hagree hok (fun _ => hlen _) depth
      refine ⟨r, by rw [hindex, heq]; exact hr, hindexed.ok, hindexed.found, ?_, fun c hc => ?_⟩
      · rw [hindexed.lookup_eq, h.lookup_larger hagree]
      · exact hindexed.used c fun b => Nat.le_trans (h.length_larger b) (hc _)
    · refine .inr ⟨by rw [hindex, heq]; rfl, bucket hash map k, Nat.le_trans hlarge hfull⟩
  · refine .inl (index_of_room hagree h (fun hfind => ?_) _)
    by_contra hge
    exact hfull ⟨hfind, Nat.not_lt.1 hge⟩

end Agree

section Calls

variable [EquivBEq K] (hagree : ∀ a b : K, (a == b) = true → hash a = hash b)
include hagree

lemma read_spec [Inhabited V] (h : map.Ok hash) (k : K) (hdepth : 1 ≤ depth) :
    (∃ map', read hash map depth k = .ok (map', some ((lookup hash map k).getD default)) ∧ map'.Ok hash ∧
      lookup hash map' = insert (lookup hash map) k ((lookup hash map k).getD default) ∧
      ∀ c, (∀ b, (map.buckets b).length ≤ c) → ∀ b, (map'.buckets b).length ≤ c + 1) ∨
    read hash map depth k = .error .noMemory ∧ ∃ b, 0x4000 ≤ (map.buckets b).length := by
  rcases index_spec hagree h k hdepth with ⟨⟨map', i⟩, heq, hr⟩ | ⟨heq, hlarge⟩
  · refine .inl ⟨map', ?_, hr.ok, hr.lookup_eq, hr.used⟩
    obtain ⟨l1, e, l2, hl, hi, -, hlookup⟩ := exists_of_find hr.found
    dsimp only at hl hi hlookup
    have hget : (map'.buckets (bucket hash map' k))[i]? = some e := by
      rw [hl, ← hi, getElem?_append_right (Nat.le_refl _), Nat.sub_self]
      rfl
    have hvalue : e.2 = (lookup hash map k).getD default := by
      rw [hr.lookup_eq, Assoc.insert, BEq.refl] at hlookup
      exact (Option.some.inj hlookup).symm
    simp only [read, heq, bind, Except.bind, hget, Option.map_some, hvalue]
    rfl
  · refine .inr ⟨?_, hlarge⟩
    simp only [read, heq, bind, Except.bind]

lemma assign_spec [Inhabited V] (h : map.Ok hash) (k : K) (v : V) (hdepth : 1 ≤ depth) :
    (∃ map', assign hash map depth k v = .ok map' ∧ map'.Ok hash ∧
      lookup hash map' = insert (lookup hash map) k v ∧
      ∀ c, (∀ b, (map.buckets b).length ≤ c) → ∀ b, (map'.buckets b).length ≤ c + 1) ∨
    assign hash map depth k v = .error .noMemory ∧ ∃ b, 0x4000 ≤ (map.buckets b).length := by
  rcases index_spec hagree h k hdepth with ⟨⟨map', i⟩, heq, hr⟩ | ⟨heq, hlarge⟩
  · obtain ⟨l1, e, l2, hl, hi, hk, -⟩ := exists_of_find hr.found
    have hok := hr.ok
    have hused := hr.used
    have hlookup := hr.lookup_eq
    dsimp only at hl hi hok hused hlookup
    have hmodify : (map'.buckets (bucket hash map' k)).modify i (fun e => (e.1, v)) =
        l1 ++ (e.1, v) :: l2 := by
      rw [hl, ← hi, modify_eq_take_drop, take_left, drop_left]
      rfl
    have honce := hok.once (bucket hash map' k)
    rw [hl] at honce
    have hlen : (l1 ++ (e.1, v) :: l2).length = (map'.buckets (bucket hash map' k)).length := by
      rw [hl]
      simp
    refine .inl ⟨setBucket hash map' k (l1 ++ (e.1, v) :: l2), ?_, ?_, ?_, fun c hc => ?_⟩
    · simp only [assign, heq, bind, Except.bind, hmodify]
      rfl
    · have hplaced := hok.placed (bucket hash map' k)
      rw [hl] at hplaced
      refine hok.setBucket (by rw [hlen]; exact hok.used _) ?_ honce.replace
      simp only [forall_mem_append, forall_mem_cons] at hplaced ⊢
      exact hplaced
    · have hget := get_replace (v := v) honce hk
      rw [← hl] at hget
      rw [lookup_setBucket_insert hagree hget, hlookup]
      funext k'
      unfold Assoc.insert
      split_ifs <;> rfl
    · exact length_setBucket_le (hlen ▸ hused c hc _) (hused c hc)
  · refine .inr ⟨?_, hlarge⟩
    simp only [assign, heq, bind, Except.bind]

omit [EquivBEq K] hagree in
lemma count_eq (k : K) : count hash map k = if (lookup hash map k).isSome then 1 else 0 := by
  have hany : ((map.buckets (bucket hash map k)).any fun e => k == e.1) = (lookup hash map k).isSome := by
    rw [lookup, Option.isSome_map, isSome_find?]
  rw [count, hany]

/-- An erasure frees memory twice exactly when it has an owning entry to move. -/
lemma erase_spec (h : map.Ok hash) (owning : Bool) (k : K) :
    (owning = true → ¬ Followed hash map k) ∧
      (∃ map', erase hash map owning k = .ok (if (lookup hash map k).isSome then 1 else 0, map') ∧
        map'.Ok hash ∧ lookup hash map' = Assoc.erase (lookup hash map) k ∧
        ∀ c, (∀ b, (map.buckets b).length ≤ c) → ∀ b, (map'.buckets b).length ≤ c) ∨
    ¬ (owning = true → ¬ Followed hash map k) ∧ erase hash map owning k = .error .freedTwice := by
  rcases hfind : find hash map k with _ | i
  · have hnone : lookup hash map k = none := get_eq_none_of_findIdx? hfind
    refine .inl ⟨fun _ => by simp [Followed, hfind], map, ?_, h, ?_, fun c hc => hc⟩
    · simp only [erase, hfind, hnone]
      rfl
    · funext k'
      rw [Assoc.erase]
      rcases hk : k == k' with _ | _
      · rfl
      · rw [← lookup_congr hagree hk, hnone]
        rfl
  obtain ⟨l1, e, l2, hl, hi, hk, hlookup⟩ := exists_of_find hfind
  have hfollowed : Followed hash map k ↔ i + 1 < (map.buckets (bucket hash map k)).length := by
    simp [Followed, hfind]
  by_cases hmoves : owning = true ∧ i + 1 < (map.buckets (bucket hash map k)).length
  · refine .inr ⟨fun hno => hno hmoves.1 (hfollowed.2 hmoves.2), ?_⟩
    simp only [erase, hfind, if_pos hmoves]
  have honce := h.once (bucket hash map k)
  have hplaced := h.placed (bucket hash map k)
  rw [hl] at honce hplaced
  have hlen : (l1 ++ l2).length ≤ (map.buckets (bucket hash map k)).length := by
    rw [hl]
    simp
  refine .inl ⟨fun hown hf => hmoves ⟨hown, hfollowed.1 hf⟩, setBucket hash map k (l1 ++ l2), ?_, ?_, ?_,
    fun c hc => length_setBucket_le (Nat.le_trans hlen (hc _)) hc⟩
  · simp only [erase, hfind, if_neg hmoves, hlookup]
    rw [hl, ← hi, Vector.erase_eq]
    rfl
  · refine h.setBucket (Nat.le_trans hlen (h.used _)) (fun e' he' => hplaced e' ?_) honce.remove
    exact (sublist_cons_self e l2).append_left l1 |>.subset he'
  · have hget := get_remove honce hk
    rw [← hl] at hget
    exact lookup_setBucket_erase hagree hget

omit [EquivBEq K] hagree in
lemma copyFrom_spec (h : map.Ok hash) : map.copyFrom = .ok map := by
  have hrest : (fun b => if b < map.numBuckets.toNat then map.buckets b else []) = map.buckets := by
    funext b
    split_ifs with hlt
    · rfl
    · refine (eq_nil_iff_forall_not_mem.2 fun e he => hlt ?_).symm
      rw [← h.placed b e he]
      exact h.bucket_lt
  simp only [copyFrom, allocateBuckets, h.memory, if_true, bind, bind, hrest]
  rfl

end Calls

end UnorderedMap

section Run

variable {ι K V : Type} [DecidableEq ι] [BEq K] {hash : K → UInt32} {owning : Bool} {depth : ℕ}

/-- The maps have the entries that they should have, and no bucket has more than `n` of them. -/
structure MapsInv (hash : K → UInt32) (maps : ι → UnorderedMap K V) (m : ι → K → Option V) (n : ℕ) :
    Prop where
  ok : ∀ i, (maps i).Ok hash
  lookup : ∀ i, (maps i).lookup hash = m i
  used : ∀ i b, ((maps i).buckets b).length ≤ n

variable {maps : ι → UnorderedMap K V} {m : ι → K → Option V} {n : ℕ}

lemma MapsInv.update (h : MapsInv hash maps m n) (i : ι) {map : UnorderedMap K V} {f : K → Option V}
    (hok : map.Ok hash) (hlookup : map.lookup hash = f) (hused : ∀ b, (map.buckets b).length ≤ n + 1) :
    MapsInv hash (update maps i map) (update m i f) (n + 1) where
  ok := (forall_update_iff maps fun _ map => map.Ok hash).2 ⟨hok, fun j _ => h.ok j⟩
  lookup j := by
    rcases eq_or_ne j i with rfl | hne
    · rwa [update_self, update_self]
    · rw [update_of_ne hne, update_of_ne hne]
      exact h.lookup j
  used := (forall_update_iff maps fun _ map => ∀ b, (map.buckets b).length ≤ n + 1).2
    ⟨hused, fun j _ b => Nat.le_succ_of_le (h.used j b)⟩

variable [EquivBEq K] [Inhabited V]

/-- A call does what the specification says, or there is no memory, or it is not careful. -/
lemma MapCall.perform_spec (hagree : ∀ a b : K, (a == b) = true → hash a = hash b) (hdepth : 1 ≤ depth)
    (h : MapsInv hash maps m n) (call : MapCall ι K V) :
    (call.Careful hash owning maps ∧
      ∃ maps', call.perform hash owning depth maps = .ok (maps', (call.specify m).2) ∧
        MapsInv hash maps' (call.specify m).1 (n + 1)) ∨
    (call.perform hash owning depth maps = .error .noMemory ∧ 0x4000 ≤ n) ∨
    ¬ call.Careful hash owning maps ∧ call.perform hash owning depth maps = .error .freedTwice := by
  rcases call with ⟨i, k⟩ | ⟨i, k, v⟩ | ⟨i, k⟩ | ⟨i, k⟩ | ⟨i, j, -⟩ | ⟨i, j, -⟩
  · rcases read_spec hagree (h.ok i) k hdepth with ⟨map', heq, hok, hlookup, hused⟩ | ⟨heq, b, hlarge⟩
    · rw [h.lookup] at heq hlookup
      refine .inl ⟨trivial, update maps i map', ?_, h.update i hok hlookup (hused n (h.used i))⟩
      simp only [perform, heq]
      rfl
    · refine .inr (.inl ⟨?_, Nat.le_trans hlarge (h.used i b)⟩)
      simp only [perform, heq, bind, Except.bind]
  · rcases assign_spec hagree (h.ok i) k v hdepth with ⟨map', heq, hok, hlookup, hused⟩ | ⟨heq, b, hlarge⟩
    · rw [h.lookup] at hlookup
      refine .inl ⟨trivial, update maps i map', ?_, h.update i hok hlookup (hused n (h.used i))⟩
      simp only [perform, heq]
      rfl
    · refine .inr (.inl ⟨?_, Nat.le_trans hlarge (h.used i b)⟩)
      simp only [perform, heq, bind, Except.bind]
  · rcases erase_spec hagree (h.ok i) owning k with ⟨hcareful, map', heq, hok, hlookup, hused⟩ | ⟨hno, heq⟩
    · rw [h.lookup] at heq hlookup
      refine .inl ⟨hcareful, update maps i map', ?_, h.update i hok hlookup fun b =>
        Nat.le_succ_of_le (hused n (h.used i) b)⟩
      simp only [perform, heq]
      rfl
    · refine .inr (.inr ⟨hno, ?_⟩)
      simp only [perform, heq, bind, Except.bind]
  · refine .inl ⟨trivial, maps, ?_, h.ok, h.lookup, fun i b => Nat.le_succ_of_le (h.used i b)⟩
    simp only [perform, count_eq, h.lookup]
    rfl
  all_goals
    refine .inl ⟨trivial, update maps i (maps j), ?_, h.update i (h.ok j) (h.lookup j) fun b =>
      Nat.le_succ_of_le (h.used j b)⟩
    simp only [perform, copyFrom_spec (h.ok j)]
    rfl

end Run

end OlliOS
