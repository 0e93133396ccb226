import OlliOS.Kstd.LinkedList
import OlliOS.Lib.Links
import OlliOS.Lib.Stepping

/-!
# A linked list is a first-in first-out queue

Without the link of the last node the nodes are a chain (`Ring`).
-/

namespace OlliOS

open Function List Links Stepping LinkedList Option

namespace LinkedList

variable {α : Type} {l l' : LinkedList α} {ns : List ℕ} {vs : List α} {node : ℕ} {t : α}

def value (l : LinkedList α) (node : ℕ) : Option α := (l.nodes node).map Node.t

structure Ring (l : LinkedList α) (ns : List ℕ) (vs : List α) : Prop where
  last : l.last = ns.getLast?
  nodup : ns.Nodup
  live : ∀ a, (l.nodes a).isSome ↔ a ∈ ns
  values : ns.map l.value = vs.map some
  chain : ∀ last ∈ l.last, Chain (update l.next last none) (l.next last) ns

lemma ring_empty : Ring (empty : LinkedList α) [] [] := ⟨rfl, nodup_nil, by simp [empty], rfl, by simp [empty]⟩

lemma next_update (nodes : ℕ → Option (Node α)) (last : Option ℕ) (a : ℕ) (n : Option (Node α)) :
    next ⟨update nodes a n, last⟩ = update (next ⟨nodes, last⟩) a (n.bind Node.next) := by
  funext b
  by_cases h : b = a <;> simp [next, h]

lemma value_update (nodes : ℕ → Option (Node α)) (last : Option ℕ) (a : ℕ) (n : Option (Node α)) :
    value ⟨update nodes a n, last⟩ = update (value ⟨nodes, last⟩) a (n.map Node.t) := by
  funext b
  by_cases h : b = a <;> simp [value, h]

lemma setNext_eq {n : Node α} (h : l.nodes node = some n) (next : Option ℕ) :
    l.setNext node next = some { l with nodes := update l.nodes node (some { n with next }) } := by
  rw [setNext, h]
  rfl

namespace Ring

lemma exists_node (h : Ring l ns vs) (hmem : node ∈ ns) : ∃ n, l.nodes node = some n :=
  isSome_iff_exists.1 ((h.live node).2 hmem)

lemma follow_eq {last : ℕ} : ∀ {ns : List ℕ} {node : ℕ}, Chain (update l.next last none) (l.next node) ns →
    ns.Nodup → ns.getLast? = some last → l.follow ns.length node = ns
  | [], _, _, _, hlast => by simp at hlast
  | [first], node, hchain, _, _ => by simp [follow, hchain.1]
  | first :: second :: ns, node, hchain, hnd, hlast => by
    have hne : first ≠ last := fun heq => (nodup_cons.1 hnd).1 (heq ▸ mem_of_getLast? hlast)
    have hrest := hchain.2
    rw [update_of_ne hne] at hrest
    rw [length_cons, follow, hchain.1]
    exact congrArg _ (follow_eq hrest (nodup_cons.1 hnd).2 hlast)

lemma push (h : Ring l ns vs) (hfree : l.nodes node = none) (t : α) :
    ∃ l', l.push node t = some l' ∧ Ring l' (ns ++ [node]) (vs ++ [t]) := by
  have hnew : node ∉ ns := by simp [← h.live, hfree]
  have hnd : (ns ++ [node]).Nodup := by simpa [nodup_append] using ⟨h.nodup, fun a ha heq => hnew (heq ▸ ha)⟩
  have hvalues : (ns ++ [node]).map (update l.value node (some t)) = (vs ++ [t]).map some := by
    rw [map_append, map_append, ← h.values, map_singleton, map_singleton, update_self]
    refine congrArg (· ++ _) (map_congr_left fun a ha => update_of_ne ?_ _ _)
    rintro rfl
    exact hnew ha
  rw [LinkedList.push, if_neg (by simp [hfree]), link]
  rcases hlast : l.last with _ | last
  · have hnil : ns = [] := by simpa [h.last] using hlast
    subst hnil
    simp only [setNext, update_self, Option.map_some, update_idem]
    refine ⟨_, rfl, rfl, hnd, fun a => ?_, ?_, ?_⟩
    · by_cases ha : a = node
      · simp [ha]
      · simpa [ha] using h.live a
    · rwa [value_update]
    · intro last hl
      obtain rfl : node = last := by simpa using hl
      simp [next_update]
  · have hmem : last ∈ ns := mem_of_getLast? (h.last ▸ hlast)
    have hne : last ≠ node := fun heq => hnew (heq ▸ hmem)
    obtain ⟨n, hn⟩ := h.exists_node hmem
    have hchain := h.chain last hlast
    obtain ⟨first, hfirst⟩ : ∃ first, n.next = some first := by
      cases ns with
      | nil => simp at hmem
      | cons first ns => exact ⟨first, by simpa [next, hn] using hchain.1⟩
    have hread : next ⟨update l.nodes node (some ⟨none, t⟩), some last⟩ last = some first := by
      rw [next_update, update_of_ne hne, next, hn, Option.bind_some, hfirst]
    have hlink : setNext ⟨update l.nodes node (some ⟨none, t⟩), some last⟩ node (some first) =
        some ⟨update l.nodes node (some ⟨some first, t⟩), some last⟩ := by
      rw [setNext_eq (update_self ..), update_idem]
    have hclose : setNext ⟨update l.nodes node (some ⟨some first, t⟩), some last⟩ last (some node) =
        some ⟨update (update l.nodes node (some ⟨some first, t⟩)) last (some ⟨some node, n.t⟩), some last⟩ :=
      setNext_eq ((update_of_ne hne _ _).trans hn) _
    simp only [hread, hlink, hclose, Option.bind_eq_bind, Option.bind_some, Option.pure_def]
    refine ⟨_, rfl, by simp, hnd, fun a => ?_, ?_, ?_⟩
    · by_cases ha : a = last
      · simp [ha, hmem]
      · by_cases hb : a = node
        · simp [hb, hne.symm]
        · simpa [ha, hb] using h.live a
    · have hsame : update (update l.value node (some t)) last (some n.t) = update l.value node (some t) := by
        refine update_eq_self_iff.2 ?_
        rw [update_of_ne hne, value, hn]
        rfl
      rw [value_update, value_update]
      exact (congrArg (map · _) hsame).trans hvalues
    · intro last' hl
      obtain rfl : node = last' := by simpa using hl
      have hcut : l.next node = none := by rw [next, hfree, Option.bind_none]
      have hlinks : next ⟨update (update l.nodes node (some ⟨some first, t⟩)) last (some ⟨some node, n.t⟩),
          some node⟩ = update (update l.next node (some first)) last (some node) := by
        rw [next_update, next_update]
        rfl
      have hopen : update (update (update l.next node (some first)) last (some node)) node none =
          update (update l.next last none) last (some node) := by
        funext a
        by_cases ha : a = node <;> by_cases hb : a = last <;> simp_all
      have happend := hchain.append (h.last ▸ hlast) h.nodup hnew (by rw [update_of_ne hne.symm, hcut])
      rw [next, hn, Option.bind_some, hfirst] at happend
      rwa [hlinks, hopen, update_of_ne hne.symm, update_self]

lemma pop (h : Ring l ns vs) (hne : ns ≠ []) :
    ∃ l' v ns' vs', l.pop = some (l', v) ∧ vs = v :: vs' ∧ Ring l' ns' vs' := by
  obtain ⟨first, ns, rfl⟩ := exists_cons_of_ne_nil hne
  obtain ⟨v, vs, rfl⟩ : ∃ v vs', vs = v :: vs' := by
    cases vs with
    | nil => simpa using h.values
    | cons v vs => exact ⟨v, vs, rfl⟩
  obtain ⟨last, hlast⟩ : ∃ last, l.last = some last := isSome_iff_exists.1 (by simp [h.last])
  have hmem : last ∈ first :: ns := mem_of_getLast? (h.last ▸ hlast)
  obtain ⟨n, hn⟩ := h.exists_node hmem
  obtain ⟨m, hm⟩ := h.exists_node (mem_cons_self : first ∈ first :: ns)
  obtain ⟨hfirst, hrest⟩ := h.chain last hlast
  have hvalues := h.values
  have hvalue : m.t = v := by
    have hhead := (cons.inj hvalues).1
    rwa [value, hm, map_some, some.injEq] at hhead
  cases ns with
  | nil =>
    obtain rfl : first = last := by simpa [h.last] using hlast
    obtain rfl : m = n := some.inj (hm.symm.trans hn)
    have hnil : vs = [] := by simpa using (cons.inj hvalues).2.symm
    have hset := setNext_eq hm (some first)
    refine ⟨⟨update l.nodes first none, none⟩, v, [], vs, ?_, rfl, rfl, nodup_nil, fun a => ?_, ?_, by simp⟩
    · simp [pop, hlast, hfirst, hset, hvalue]
    · by_cases ha : a = first
      · simp [ha]
      · simpa [ha] using h.live a
    · simp [hnil]
  | cons second ns =>
    have hnd := nodup_cons.1 h.nodup
    have hlast' : (second :: ns).getLast? = some last := h.last ▸ hlast
    have hfl : first ≠ last := fun heq => hnd.1 (heq ▸ mem_of_getLast? hlast')
    have hsecond : l.next first = some second := by simpa [update_of_ne hfl] using hrest.1
    have hset := setNext_eq hn (some second)
    refine ⟨⟨update (update l.nodes last (some { n with next := some second })) first none, some last⟩, v,
      second :: ns, vs, ?_, rfl, hlast'.symm, hnd.2, fun a => ?_, ?_, ?_⟩
    · simp [pop, hlast, hfirst, hsecond, hset, hfl, hm, hvalue]
    · have hlive := h.live a
      by_cases ha : a = first
      · simp [ha, hnd.1]
      · by_cases hb : a = last
        · simp [hb, mem_of_getLast? hlast', hfl.symm]
        · simpa [ha, hb] using hlive
    · have hsame : update l.value last (some n.t) = l.value := by
        refine update_eq_self_iff.2 ?_
        rw [value, hn]
        rfl
      rw [value_update, value_update, ← (cons.inj hvalues).2]
      refine map_congr_left fun a ha => ?_
      rw [update_of_ne (by rintro rfl; exact hnd.1 ha)]
      exact congrFun hsame a
    · intro last' hl
      obtain rfl : last = last' := by simpa using hl
      have htail := (h.chain last hlast).tail h.nodup
      have hcut : update (update (update l.next last (some second)) first none) last none =
          update (update l.next last none) first none := by
        funext a
        by_cases ha : a = first <;> by_cases hb : a = last <;> simp_all
      rw [update_of_ne hfl, hsecond] at htail
      rw [next_update, next_update, update_of_ne hfl.symm, update_self]
      exact hcut ▸ htail

end Ring

end LinkedList

namespace ListState

variable {α : Type} {s s' : ListState α}

def Inv (s : ListState α) : Prop := ∃ ns vs, s.list.Ring ns vs ∧ s.pushed = s.popped ++ vs

lemma Inv.step (h : s.Inv) {a : ListCall α} (hs : s.step a = some s') : s'.Inv := by
  obtain ⟨ns, vs, hring, hqueue⟩ := h
  cases a with
  | push node t =>
    obtain ⟨l, hl, rfl⟩ := map_eq_some_iff.1 hs
    have hfree : s.list.nodes node = none := by
      by_contra hused
      simp [push, isSome_iff_ne_none.2 hused] at hl
    obtain ⟨l', hl', hring'⟩ := hring.push hfree t
    cases hl.symm.trans hl'
    exact ⟨_, _, hring', by simp [hqueue]⟩
  | pop =>
    obtain ⟨⟨l, t⟩, hl, rfl⟩ := map_eq_some_iff.1 hs
    have hne : ns ≠ [] := by
      rintro rfl
      simp [pop, hring.last] at hl
    obtain ⟨l', v, ns', vs', hl', rfl, hring'⟩ := hring.pop hne
    cases some.inj (hl.symm.trans hl')
    exact ⟨_, _, hring', by simp [hqueue]⟩

lemma Inv.fifo (h : s.Inv) : s.Fifo := by
  obtain ⟨ns, vs, hring, hqueue⟩ := h
  have hlength : ns.length = vs.length := by simpa using congrArg List.length hring.values
  have hempty : s.list.isEmpty = false ↔ ns ≠ [] := by simp [LinkedList.isEmpty, hring.last]
  refine ⟨⟨ns, hring.nodup, hring.live, hring.last, fun last hlast => ?_⟩, ?_, ⟨vs, hqueue.symm⟩, ?_, fun a t ha => ?_,
    fun hne => ?_⟩
  · exact LinkedList.Ring.follow_eq (hring.chain last hlast) hring.nodup (hring.last ▸ hlast)
  · rw [hring.last, getLast?_eq_none_iff]
    simp only [← not_isSome_iff_eq_none, hring.live]
    exact eq_nil_iff_forall_not_mem
  · rw [hempty, hqueue, length_append, Ne, ← length_eq_zero_iff, hlength]
    omega
  · obtain ⟨l, hl, -⟩ := hring.push ha t
    exact ⟨_, by rw [ListState.step, hl]; rfl⟩
  · obtain ⟨l, v, -, -, hl, -⟩ := hring.pop (hempty.1 hne)
    exact ⟨_, by rw [ListState.step, hl]; rfl⟩

/-- In every run of calls on an empty list, in whatever addresses the nodes are put. -/
theorem linked_list_fifo (h : Reaches step Any init s) : s.Fifo :=
  (h.invariant (I := Inv) ⟨[], [], ring_empty, rfl⟩ fun _ _ _ hI _ hs => hI.step hs).fifo

theorem linked_list_fifo_reused : ∃ s : ListState ℕ, s.Fifo ∧ s.popped = [5, 6] ∧ s.pushed = [5, 6, 7, 8] := by
  obtain ⟨s, hs, hpopped, hpushed⟩ : ∃ s : ListState ℕ, Reaches step Any init s ∧
      s.popped = [5, 6] ∧ s.pushed = [5, 6, 7, 8] :=
    exists_of_run [.push 1 5, .push 2 6, .pop, .push 1 7, .pop, .push 3 8] (by decide)
  exact ⟨s, linked_list_fifo hs, hpopped, hpushed⟩

end ListState

end OlliOS
