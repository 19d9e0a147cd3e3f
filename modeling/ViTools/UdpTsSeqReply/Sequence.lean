import ViTools.UdpTsSeqReply.Serve

/-!
# Sequence numbers

The number in a reply counts the datagrams of its id since the last reset of that id. A reset is the
first datagram of an id, and each one that comes 61 seconds or more after the one before it.

Datagrams of other ids never matter, as the server is a table of independent machines. The count is
then an invariant of a single machine.
-/

namespace ViTools.UdpTsSeqReply

/-! ## Resets -/

/-- The requests of one id. -/
def idRequests (x : UInt32) (reqs : List Request) : List Request := reqs.filter fun req ↦ req.id = x

/-- The replies to the requests of one id. -/
def idReplies (x : UInt32) (reqs : List Request) (replies : List (List UInt8)) :
    List (List UInt8) := ((reqs.zip replies).filter fun p ↦ p.1.id = x).map Prod.snd

/-- Among the requests of one id, the one at index `j` is a reset. -/
def IsReset (l : List Request) (j : ℕ) : Prop :=
  j = 0 ∨ ∃ prev cur, l[j - 1]? = some prev ∧ l[j]? = some cur ∧
    61 * 1000000000 ≤ prev.ts.gap cur.ts

/-- Among the requests of one id, the last reset is at index `r`. -/
def LastReset (l : List Request) (r : ℕ) : Prop :=
  r < l.length ∧ IsReset l r ∧ ∀ j, r < j → j < l.length → ¬IsReset l j

theorem isReset_append {l : List Request} {req : Request} {j : ℕ} (h : j < l.length) :
    IsReset (l ++ [req]) j ↔ IsReset l j := by
  rw [IsReset, IsReset, List.getElem?_append_left h, List.getElem?_append_left (by omega)]

theorem isReset_length {l : List Request} {req last : Request} (h : l.getLast? = some last) :
    IsReset (l ++ [req]) l.length ↔ 61 * 1000000000 ≤ last.ts.gap req.ts := by
  have hpos : 0 < l.length := List.length_pos_iff.mpr fun hnil ↦ by simp [hnil] at h
  rw [List.getLast?_eq_getElem?] at h
  rw [IsReset, List.getElem?_append_left (by omega), h, List.getElem?_append_right (le_refl _),
    Nat.sub_self]
  simp [hpos.ne']

theorem lastReset_append_of_isReset {l : List Request} {req : Request}
    (h : IsReset (l ++ [req]) l.length) : LastReset (l ++ [req]) l.length := by
  have hlen : (l ++ [req]).length = l.length + 1 := by simp
  exact ⟨by omega, h, fun j _ _ ↦ by omega⟩

theorem lastReset_append_of_not_isReset {l : List Request} {req : Request} {r : ℕ}
    (hr : LastReset l r) (h : ¬IsReset (l ++ [req]) l.length) : LastReset (l ++ [req]) r := by
  have hlen : (l ++ [req]).length = l.length + 1 := by simp
  obtain ⟨hlt, hreset, hlast⟩ := hr
  refine ⟨by omega, (isReset_append hlt).mpr hreset, fun j hj hj' ↦ ?_⟩
  by_cases hjl : j = l.length
  · exact hjl ▸ h
  · rw [isReset_append (by omega)]
    exact hlast j hj (by omega)

/-! ## The count -/

/-- The entry of an id after its requests `l`: the number of requests since the last reset, and the
time of the last request. -/
def Counts (l : List Request) (e : Entry) : Prop :=
  (l = [] ∧ e.2 = none) ∨ ∃ r last, LastReset l r ∧ l.getLast? = some last ∧
    e = (some (UInt32.ofNat (l.length - r)), some last.ts)

/-- One step of the count: the number sent, and the new entry. -/
theorem Counts.step {l : List Request} {e : Entry} (h : Counts l e) (req : Request) :
    ∃ r, LastReset (l ++ [req]) r ∧ e.seq req.ts = UInt32.ofNat (l.length - r) := by
  rcases h with ⟨rfl, he⟩ | ⟨r, last, hr, hlast, he⟩
  · refine ⟨0, lastReset_append_of_isReset (.inl rfl), ?_⟩
    rw [Entry.seq, if_pos (Entry.stale_of_none he)]
    rfl
  · have hstale : e.Stale req.ts ↔ IsReset (l ++ [req]) l.length := by
      rw [isReset_length hlast]
      exact Entry.stale_iff (by rw [he])
    by_cases hreset : IsReset (l ++ [req]) l.length
    · refine ⟨l.length, lastReset_append_of_isReset hreset, ?_⟩
      rw [Entry.seq, if_pos (hstale.mpr hreset), Nat.sub_self]
      rfl
    · refine ⟨r, lastReset_append_of_not_isReset hr hreset, ?_⟩
      rw [Entry.seq, if_neg fun h ↦ hreset (hstale.mp h), he]
      rfl

theorem Counts.next {l : List Request} {e : Entry} (h : Counts l e) (req : Request) :
    Counts (l ++ [req]) (clients.step e req).2 := by
  obtain ⟨r, hr, hseq⟩ := h.step req
  have hlt := hr.1
  rw [List.length_append, List.length_singleton] at hlt
  refine .inr ⟨r, req, hr, List.getLast?_concat, ?_⟩
  have hcount : e.seq req.ts + 1 = UInt32.ofNat ((l ++ [req]).length - r) := by
    rw [hseq, List.length_append, List.length_singleton, Nat.sub_add_comm (by omega),
      UInt32.ofNat_add]
    rfl
  exact congrArg (some ·, some req.ts) hcount

/-- **Run lemma.** After any requests, the entry of every id is the count of that id. -/
theorem counts_table (x : UInt32) {T : UInt32 → Entry} (hT : (T x).2 = none) (reqs : List Request) :
    Counts (idRequests x reqs) ((clients.table T reqs).2 x) := by
  rw [clients.table_snd]
  exact clients.solo_history Counts (fun _ _ req h ↦ h.next req) (.inl ⟨rfl, hT⟩) _

/-! ## The replies -/

/-- The sequence number in a reply. -/
def replySeq (bytes : List UInt8) : UInt32 := ntohl (memNat32 ((bytes.drop 12).take 4))

theorem replySeq_reply (req : Request) (seq : UInt32) : replySeq (reply req seq) = seq := by
  have hnum : ((reply req seq).drop 12).take 4 = memBytes32 (htonl seq) := by
    rw [reply, stamp, List.append_assoc, List.append_assoc, List.drop_left' (by simp),
      List.take_left' (length_memBytes32 _)]
  rw [replySeq, hnum, memNat32_memBytes32, ntohl_htonl]

theorem idReplies_eq (x : UInt32) (T : UInt32 → Entry) (reqs : List Request) :
    idReplies x reqs ((clients.table T reqs).1.map Prod.snd)
      = (clients.answers x (clients.table T reqs).1).map Prod.snd := by
  rw [idReplies, ← List.zip_of_prod (clients.map_fst_table T reqs) rfl]
  rfl

/-- **Sequence numbers are per-client counts.** The number in each reply is the number of earlier
datagrams with the same id since the last reset of the id, modulo `2 ^ 32`. What is sent to an id
depends on the datagrams of that id alone. -/
theorem serve1_sequence (reqs : List Request) :
    ∃ replies srv, transduce serve1 Server.start reqs = some (replies, srv) ∧
      (∀ before req after, reqs = before ++ req :: after →
        ∃ bytes r, replies[before.length]? = some bytes ∧
          LastReset (idRequests req.id (before ++ [req])) r ∧
          replySeq bytes = UInt32.ofNat ((idRequests req.id before).length - r)) ∧
      ∀ x reqs', idRequests x reqs' = idRequests x reqs →
        ∃ replies' srv', transduce serve1 Server.start reqs' = some (replies', srv') ∧
          idReplies x reqs' replies' = idReplies x reqs replies := by
  obtain ⟨srv, hrun, -⟩ := transduce_serve1 Server.start reqs
  refine ⟨_, srv, hrun, ?_, fun x reqs' heq ↦ ?_⟩
  · rintro before req after rfl
    obtain ⟨_, srv₁, bytes, _, hbefore, hstep, hget⟩ := transduce_split hrun
    obtain ⟨srv₁', hbefore', hentry⟩ := transduce_serve1 Server.start before
    cases hbefore.symm.trans hbefore'
    rw [serve1_eq] at hstep
    cases hstep
    obtain ⟨r, hr, hseq⟩ := (counts_table req.id (T := Server.start.entry) rfl before).step req
    refine ⟨_, r, hget, ?_, ?_⟩
    · rwa [idRequests, List.filter_append, List.filter_singleton, decide_eq_true rfl]
    · rw [replySeq_reply, hentry, hseq]
  · obtain ⟨srv', hrun', -⟩ := transduce_serve1 Server.start reqs'
    refine ⟨_, srv', hrun', ?_⟩
    rw [idReplies_eq, idReplies_eq, clients.answers_congr rfl heq]

end ViTools.UdpTsSeqReply
