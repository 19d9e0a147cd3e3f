import ViTools.Lib.Run
import ViTools.UdpTimeoutChecker.Experiment
import ViTools.UdpTimeoutChecker.Session

/-!
# Whose replies a call accepts

A call that starts with nothing left of earlier ones accepts replies to its own request only. A call
that fails may leave something behind, such as a reply that is late. The next call then reads it, fails
in its turn, and leaves its own replies to the call after it.
-/

namespace ViTools.UdpTimeoutChecker

/-! ## Children -/

/-- A child goes on: it is the same child, and what it has sent stays sent. -/
structure Child.Le (c c' : Child) : Prop where
  call : c'.call = c.call
  waits : c'.waits = c.waits
  sent : ∀ l t, c.sent l = some t → c'.sent l = some t

theorem Child.Le.refl (c : Child) : c.Le c := ⟨rfl, rfl, fun _ _ h ↦ h⟩

/-- The second reply is sent after the first one and the second wait. -/
def Child.Orderly (c : Child) : Prop :=
  ∀ t, c.sent .A = some t → ∃ t', c.sent .B = some t' ∧ t' + c.waits.ts2 ≤ t

section Children

variable {cs cs' : List Child} {c c' : Child} {b a d : Datagram} {i k seconds : ℕ}

/-- A datagram is a reply of the child that is said to have sent it. -/
def Known (cs : List Child) (d : Datagram) : Prop :=
  ∃ c l, cs[d.child]? = some c ∧ d.text = Letter.text l ∧ c.sent l = some d.time

/-- A child was made for the request of a call. -/
def MadeFor (cs : List Child) (i k seconds : ℕ) : Prop :=
  ∃ c, cs[i]? = some c ∧ c.call = k ∧ c.waits = ⟨0, seconds * 1000000000⟩

/-- Two replies are the `B` and the `A` of children that were made for the request of a call. -/
structure Genuine (cs : List Child) (k seconds : ℕ) (b a : Datagram) : Prop where
  /-- The first reply. -/
  b : ∃ c, cs[b.child]? = some c ∧ c.call = k ∧ c.sent .B = some b.time
  /-- The second reply, and the silence before it. -/
  a : ∃ c, cs[a.child]? = some c ∧ c.call = k ∧ c.sent .A = some a.time ∧
    ∃ t, c.sent .B = some t ∧ t + seconds * 1000000000 ≤ a.time

theorem Known.mono (h : Known cs d) (hle : Progress Child.Le cs cs') : Known cs' d := by
  obtain ⟨c, l, hc, htext, hsent⟩ := h
  obtain ⟨c', hc', hcc'⟩ := hle d.child c hc
  exact ⟨c', l, hc', htext, hcc'.sent l _ hsent⟩

theorem MadeFor.mono (h : MadeFor cs i k seconds) (hle : Progress Child.Le cs cs') :
    MadeFor cs' i k seconds := by
  obtain ⟨c, hc, hcall, hwaits⟩ := h
  obtain ⟨c', hc', hcc'⟩ := hle i c hc
  exact ⟨c', hc', hcc'.call.trans hcall, hcc'.waits.trans hwaits⟩

theorem Genuine.mono (h : Genuine cs k seconds b a) (hle : Progress Child.Le cs cs') :
    Genuine cs' k seconds b a := by
  obtain ⟨⟨c, hc, hcall, hsent⟩, ⟨e, he, hcall', hsent', t, ht, hsilence⟩⟩ := h
  obtain ⟨c', hc', hcc'⟩ := hle b.child c hc
  obtain ⟨e', he', hee'⟩ := hle a.child e he
  exact ⟨⟨c', hc', hcc'.call.trans hcall, hcc'.sent _ _ hsent⟩,
    ⟨e', he', hee'.call.trans hcall', hee'.sent _ _ hsent', t, hee'.sent _ _ ht, hsilence⟩⟩

/-- Two replies are the `B` and the `A` of one child that was made for the request of a call. -/
structure Credited (cs : List Child) (k seconds : ℕ) (b a : Datagram) : Prop where
  /-- The child. -/
  child : ∃ c, cs[b.child]? = some c ∧ c.call = k
  /-- It sent both. -/
  same : a.child = b.child
  /-- The silence between them. -/
  silence : b.time + seconds * 1000000000 ≤ a.time

/-- No more than one child was made for a call. -/
def Single (cs : List Child) (k : ℕ) : Prop :=
  ∀ (i j : ℕ) (c e : Child), cs[i]? = some c → cs[j]? = some e → c.call = k → e.call = k → i = j

theorem Genuine.credited (h : Genuine cs k seconds b a) (hsingle : Single cs k) :
    Credited cs k seconds b a := by
  obtain ⟨⟨c, hc, hcall, hsent⟩, ⟨e, he, hcall', hsent', t, ht, hsilence⟩⟩ := h
  have hchild := hsingle _ _ e c he hc hcall' hcall
  rw [hchild, hc] at he
  cases he
  rw [hsent] at ht
  cases ht
  exact ⟨⟨c, hc, hcall⟩, hchild, hsilence⟩

/-- The text of a reply tells which of the two it is. -/
theorem Known.sent {l : Letter} (h : Known cs d) (htext : d.text = l.text) (hc : cs[d.child]? = some c) :
    c.sent l = some d.time := by
  obtain ⟨c', l', hc', htext', hsent⟩ := h
  have hl : l.text = l'.text := htext.symm.trans htext'
  have heq : l = l' := by
    revert hl
    cases l <;> cases l' <;> decide
  rw [hc] at hc'
  cases hc'
  rw [heq, hsent]

/-- A reply that passes is the reply that is expected. -/
theorem check_reply_ok {l : Letter} {reply : Option Datagram} (h : check_reply l reply = .ok d)
    (hknown : ∀ d ∈ reply, Known cs d) : reply = some d ∧ d.text = l.text := by
  cases reply with
  | none => cases h
  | some d' =>
    obtain ⟨c, l', -, htext, -⟩ := hknown d' rfl
    rw [check_reply, htext] at h
    dsimp only [Letter.text] at h
    split at h
    · cases h
    · next hchar =>
      cases h
      refine ⟨rfl, htext.trans ?_⟩
      rw [Letter.text, Letter.text, not_not.mp hchar]

theorem result_ne_ok_of_check_reply {l : Letter} {reply : Option Datagram} {result : Result}
    (h : check_reply l reply = .error result) (b a : Datagram) : result ≠ .ok b a := by
  cases reply with
  | none =>
    cases h
    exact Result.noConfusion
  | some d =>
    rw [check_reply] at h
    split at h
    · cases h
      exact Result.noConfusion
    · split at h
      · cases h
        exact Result.noConfusion
      · cases h

/-- Replies accepted from children of the call are genuine. -/
theorem genuine_of_madeFor (hb : Known cs b) (ha : Known cs a) (hbtext : b.text = Letter.B.text)
    (hatext : a.text = Letter.A.text) (hborn : MadeFor cs b.child k seconds)
    (haorn : MadeFor cs a.child k seconds) (horderly : ∀ c ∈ cs, c.Orderly) :
    Genuine cs k seconds b a := by
  obtain ⟨c, hc, hcall, -⟩ := hborn
  obtain ⟨e, he, hcall', hwaits⟩ := haorn
  have hsent := ha.sent hatext he
  obtain ⟨t, ht, hsilence⟩ := horderly e (List.mem_of_getElem? he) a.time hsent
  rw [hwaits] at hsilence
  exact ⟨⟨c, hc, hcall, hb.sent hbtext hc⟩, ⟨e, he, hcall', hsent, t, ht, hsilence⟩⟩

end Children

namespace Session

/-! ## The invariant -/

/-- All the replies there are: on their way, unread, and accepted by the running call. -/
def datagrams (s : Session) : List Datagram :=
  s.replies ++ s.socket ++ (s.running.bind Try.b).toList

/-- Whatever there is comes from the running call. -/
structure Fresh (s : Session) (seconds : ℕ) : Prop where
  /-- The requests. -/
  requests : ∀ p ∈ s.requests, p = (s.calls.length, request seconds)
  /-- The children that have something to send. -/
  children : ∀ c ∈ s.children, c.sent_A = none →
    c.call = s.calls.length ∧ c.waits = ⟨0, seconds * 1000000000⟩
  /-- The replies. -/
  datagrams : ∀ d ∈ s.datagrams, MadeFor s.children d.child s.calls.length seconds

/-- **The invariant.** -/
structure Sound (s : Session) : Prop where
  /-- Replies are not made up. -/
  known : ∀ d ∈ s.datagrams, Known s.children d
  /-- Children wait between their replies. -/
  orderly : ∀ c ∈ s.children, c.Orderly
  /-- The argument is an `int`. -/
  seconds_lt : ∀ t ∈ s.running, t.seconds < 2 ^ 31
  /-- The first reply accepted is a `B`. -/
  accepted : ∀ t ∈ s.running, ∀ b ∈ t.b, b.text = Letter.B.text
  /-- A call that started clean is alone. -/
  fresh : ∀ t ∈ s.running, t.clean → s.Fresh t.seconds
  /-- Calls that started clean accepted replies to their requests. -/
  genuine : ∀ call ∈ s.calls, call.clean → ∀ b a, call.result = .ok b a →
    Genuine s.children call.number call.seconds b a

theorem sound_start : Sound start where
  known := List.forall_mem_nil _
  orderly := List.forall_mem_nil _
  seconds_lt _ ht := nomatch ht
  accepted _ ht := nomatch ht
  fresh _ ht := nomatch ht
  genuine := List.forall_mem_nil _

namespace Sound

variable {s : Session} {t : Try}

/-! ### Actions of the network -/

/-- The network may do anything but make up messages. -/
theorem network (h : Sound s) {requests : List (ℕ × List Char)} {replies socket : List Datagram}
    (hrequests : requests ⊆ s.requests) (hreplies : replies ++ socket ⊆ s.replies ++ s.socket) :
    Sound { s with requests, replies, socket } := by
  have hsub : datagrams { s with requests, replies, socket } ⊆ s.datagrams := by
    intro d hd
    rcases List.mem_append.mp hd with hd | hd
    · exact List.mem_append_left _ (hreplies hd)
    · exact List.mem_append_right _ hd
  refine { h with known := ?_, fresh := ?_ }
  · intro d hd
    exact h.known d (hsub hd)
  · intro t ht hclean
    have hfresh := h.fresh t ht hclean
    exact ⟨fun p hp ↦ hfresh.requests p (hrequests hp), hfresh.children,
      fun d hd ↦ hfresh.datagrams d (hsub hd)⟩

/-! ### Actions of the client -/

theorem returns (h : Sound s) {result : Result}
    (hresult : t.clean → ∀ b a, result = .ok b a →
      Genuine s.children s.calls.length t.seconds b a) : Sound (s.returns t result) := by
  have hsub : (s.returns t result).datagrams ⊆ s.datagrams := by
    intro d hd
    rcases List.mem_append.mp hd with hd | hd
    · exact List.mem_append_left _ hd
    · cases hd
  refine ⟨fun d hd ↦ h.known d (hsub hd), h.orderly, ?_, ?_, ?_, ?_⟩
  · rintro _ ⟨⟩
  · rintro _ ⟨⟩
  · rintro _ ⟨⟩
  · intro call hcall
    rcases List.mem_append.mp hcall with hcall | hcall
    · exact h.genuine call hcall
    · rw [List.mem_singleton] at hcall
      rw [hcall]
      exact hresult

theorem received (h : Sound s) (ht : t ∈ s.running) {reply : Option Datagram}
    (hknown : ∀ d ∈ reply, Known s.children d)
    (hmade : t.clean → ∀ d ∈ reply, MadeFor s.children d.child s.calls.length t.seconds) :
    Sound (s.received t reply) := by
  rw [Session.received]
  cases hb : t.b with
  | none =>
    cases hcheck : check_reply .B reply with
    | error result =>
      exact h.returns fun _ b a hok ↦ absurd hok (result_ne_ok_of_check_reply hcheck b a)
    | ok b =>
      obtain ⟨rfl, htext⟩ := check_reply_ok hcheck hknown
      -- the reply has moved on to the running call
      have hmem : ∀ d ∈ s.replies ++ s.socket ++ [b], d ∈ s.datagrams ∨ d = b := by
        intro d hd
        rcases List.mem_append.mp hd with hd | hd
        · exact .inl (List.mem_append_left _ hd)
        · exact .inr (List.mem_singleton.mp hd)
      refine ⟨?_, h.orderly, ?_, ?_, ?_, h.genuine⟩
      · intro d hd
        rcases hmem d hd with hd | rfl
        · exact h.known d hd
        · exact hknown d rfl
      · rintro _ ⟨⟩
        exact h.seconds_lt t ht
      · rintro _ ⟨⟩ _ ⟨⟩
        exact htext
      · rintro _ ⟨⟩ hclean
        have hfresh := h.fresh t ht hclean
        refine ⟨hfresh.requests, hfresh.children, ?_⟩
        intro d hd
        rcases hmem d hd with hd | rfl
        · exact hfresh.datagrams d hd
        · exact hmade hclean d rfl
  | some b =>
    cases hcheck : check_reply .A reply with
    | error result =>
      exact h.returns fun _ b a hok ↦ absurd hok (result_ne_ok_of_check_reply hcheck b a)
    | ok a =>
      obtain ⟨rfl, htext⟩ := check_reply_ok hcheck hknown
      have hbmem : b ∈ s.datagrams := by
        refine List.mem_append_right _ ?_
        rw [Option.mem_toList]
        exact Option.bind_eq_some_iff.mpr ⟨t, ht, hb⟩
      refine h.returns ?_
      rintro hclean _ _ ⟨⟩
      exact genuine_of_madeFor (h.known b hbmem) (hknown a rfl) (h.accepted t ht b hb) htext
        ((h.fresh t ht hclean).datagrams b hbmem) (hmade hclean a rfl) h.orderly

theorem recv (h : Sound s) {s' : Session} (hstep : step s .recv = some s') : Sound s' := by
  obtain ⟨t, ht, hstep⟩ := Option.bind_eq_some_iff.mp hstep
  cases hsocket : s.socket with
  | nil =>
    rw [hsocket] at hstep
    cases hstep
  | cons d socket =>
    rw [hsocket] at hstep
    cases hstep
    have hd : d ∈ s.datagrams := by
      refine List.mem_append_left _ (List.mem_append_right _ ?_)
      rw [hsocket]
      exact List.mem_cons_self
    have hsub : s.replies ++ socket ⊆ s.replies ++ s.socket := by
      rw [hsocket]
      exact List.append_subset.mpr ⟨List.subset_append_left _ _,
        List.Subset.trans (List.subset_cons_self _ _) (List.subset_append_right _ _)⟩
    refine received (h.network (List.Subset.refl _) hsub) ht ?_ ?_
    · rintro _ ⟨⟩
      exact h.known d hd
    · rintro hclean _ ⟨⟩
      exact (h.fresh t ht hclean).datagrams d hd

/-- A call begins. -/
theorem call (h : Sound s) {seconds : ℕ} {s' : Session} (hstep : step s (.call seconds) = some s') :
    Sound s' := by
  rw [step] at hstep
  split at hstep
  · cases hstep
  · next hidle =>
    rw [not_or, Bool.not_eq_true, Option.isSome_eq_false_iff, Option.isNone_iff_eq_none, not_le] at hidle
    cases hstep
    have hdatagrams : ∀ d ∈ s.replies ++ s.socket ++ [], d ∈ s.datagrams := by
      rw [datagrams, hidle.1]
      exact fun _ hd ↦ hd
    refine ⟨fun d hd ↦ h.known d (hdatagrams d hd), h.orderly, ?_, ?_, ?_, h.genuine⟩
    · rintro _ ⟨⟩
      exact Nat.lt_of_add_right_lt hidle.2
    · rintro _ ⟨⟩ _ hb
      cases hb
    · rintro _ ⟨⟩ hclean
      obtain ⟨hrequests, hchildren, hreplies, hsocket⟩ := of_decide_eq_true hclean
      refine ⟨?_, fun c hc hnone ↦ absurd hnone (hchildren c hc), ?_⟩
      · rw [hrequests]
        exact fun p hp ↦ List.mem_singleton.mp hp
      · rw [datagrams, hreplies, hsocket]
        exact List.forall_mem_nil _

/-! ### Actions of the server -/

theorem serve (h : Sound s) {i : ℕ} {s' : Session} (hstep : step s (.serve i) = some s') : Sound s' := by
  obtain ⟨⟨k, text⟩, hp, hstep⟩ := Option.bind_eq_some_iff.mp hstep
  have hnetwork : Sound { s with requests := s.requests.eraseIdx i } :=
    h.network (List.eraseIdx_subset) (List.Subset.refl _)
  dsimp only at hstep
  split at hstep
  · cases hstep
    exact hnetwork
  · next waits hserve =>
    cases hstep
    have hle : Progress Child.Le s.children (s.children ++ [⟨k, waits, s.now, none, none⟩]) :=
      .append Child.Le.refl _ _
    have hmem : ∀ c ∈ s.children ++ [⟨k, waits, s.now, none, none⟩],
        c ∈ s.children ∨ c = ⟨k, waits, s.now, none, none⟩ := by
      intro c hc
      rcases List.mem_append.mp hc with hc | hc
      · exact .inl hc
      · exact .inr (List.mem_singleton.mp hc)
    refine ⟨fun d hd ↦ (h.known d hd).mono hle, ?_, h.seconds_lt, h.accepted, ?_,
      fun call hcall hclean b a hresult ↦ (h.genuine call hcall hclean b a hresult).mono hle⟩
    · intro c hc
      rcases hmem c hc with hc | rfl
      · exact h.orderly c hc
      · exact fun t ht ↦ nomatch ht
    · intro t ht hclean
      have hfresh := hnetwork.fresh t ht hclean
      refine ⟨hfresh.requests, ?_, fun d hd ↦ (hfresh.datagrams d hd).mono hle⟩
      intro c hc hnone
      rcases hmem c hc with hc | rfl
      · exact hfresh.children c hc hnone
      · -- the request was sent by the running call
        have hrequest := (h.fresh t ht hclean).requests _ (List.mem_of_getElem? hp)
        cases hrequest
        rw [serve1_request (h.seconds_lt t ht)] at hserve
        split at hserve
        · cases hserve
        · cases hserve
          exact ⟨rfl, rfl⟩

/-- A child that is not done sends a reply. -/
theorem child_sends (h : Sound s) {i : ℕ} {c c' : Child} {l : Letter} (hc : s.children[i]? = some c)
    (hpending : c.sent_A = none) (hle : c.Le c') (horderly : c'.Orderly)
    (hsent : c'.sent l = some s.now) :
    Sound { s with
      children := s.children.set i c', replies := s.replies ++ [⟨l.text, i, s.now⟩] } := by
  have hprogress : Progress Child.Le s.children (s.children.set i c') := .set Child.Le.refl hc hle
  have hi : (s.children.set i c')[i]? = some c' :=
    List.getElem?_set_self (List.getElem?_eq_some_iff.mp hc).1
  have hmem : ∀ d ∈ s.replies ++ [⟨l.text, i, s.now⟩] ++ s.socket ++ (s.running.bind Try.b).toList,
      d ∈ s.datagrams ∨ d = ⟨l.text, i, s.now⟩ := by
    intro d hd
    rw [datagrams]
    simp only [List.mem_append, List.mem_singleton] at hd ⊢
    tauto
  refine ⟨?_, ?_, h.seconds_lt, h.accepted, ?_,
    fun call hcall hclean b a hresult ↦ (h.genuine call hcall hclean b a hresult).mono hprogress⟩
  · intro d hd
    rcases hmem d hd with hd | rfl
    · exact (h.known d hd).mono hprogress
    · exact ⟨c', l, hi, rfl, hsent⟩
  · intro e he
    rcases List.mem_or_eq_of_mem_set he with he | rfl
    · exact h.orderly e he
    · exact horderly
  · intro t ht hclean
    have hfresh := h.fresh t ht hclean
    have hmade := hfresh.children c (List.mem_of_getElem? hc) hpending
    refine ⟨hfresh.requests, ?_, ?_⟩
    · intro e he hnone
      rcases List.mem_or_eq_of_mem_set he with he | rfl
      · exact hfresh.children e he hnone
      · exact ⟨hle.call.trans hmade.1, hle.waits.trans hmade.2⟩
    · intro d hd
      rcases hmem d hd with hd | rfl
      · exact (hfresh.datagrams d hd).mono hprogress
      · exact MadeFor.mono ⟨c, hc, hmade⟩ hprogress

theorem send_B (h : Sound s) {i : ℕ} {s' : Session} (hstep : step s (.send_B i) = some s') :
    Sound s' := by
  obtain ⟨c, hc, hstep⟩ := Option.bind_eq_some_iff.mp hstep
  split at hstep
  · next hguard =>
    cases hstep
    have hpending : c.sent_A = none := by
      rw [Option.eq_none_iff_forall_ne_some]
      intro t ht
      obtain ⟨t', ht', -⟩ := h.orderly c (List.mem_of_getElem? hc) t ht
      exact absurd (hguard.1.symm.trans ht') (Option.some_ne_none _).symm
    refine h.child_sends (l := .B) hc hpending ⟨rfl, rfl, ?_⟩ ?_ rfl
    · intro l t ht
      cases l with
      | B => exact absurd (hguard.1.symm.trans ht) (Option.some_ne_none _).symm
      | A => exact ht
    · intro t ht
      exact absurd (hpending.symm.trans ht) (Option.some_ne_none _).symm
  · cases hstep

theorem send_A (h : Sound s) {i : ℕ} {s' : Session} (hstep : step s (.send_A i) = some s') :
    Sound s' := by
  obtain ⟨c, hc, hstep⟩ := Option.bind_eq_some_iff.mp hstep
  obtain ⟨time, htime, hstep⟩ := Option.bind_eq_some_iff.mp hstep
  split at hstep
  · next hguard =>
    cases hstep
    refine h.child_sends (l := .A) hc hguard.1 ⟨rfl, rfl, ?_⟩ ?_ rfl
    · intro l t ht
      cases l with
      | B => exact ht
      | A => exact absurd (hguard.1.symm.trans ht) (Option.some_ne_none _).symm
    · rintro _ ⟨⟩
      exact ⟨time, htime, hguard.2⟩
  · cases hstep

/-- **Step lemma.** -/
theorem step (h : Sound s) {a : Action} {s' : Session} (hstep : step s a = some s') : Sound s' := by
  cases a with
  | tick d =>
    cases hstep
    refine { h with fresh := ?_ }
    intro t ht hclean
    have hfresh := h.fresh t ht hclean
    exact ⟨hfresh.requests, hfresh.children, hfresh.datagrams⟩
  | call seconds => exact h.call hstep
  | call_error seconds =>
    rw [Session.step] at hstep
    split at hstep
    · cases hstep
    · cases hstep
      exact h.returns fun _ _ _ hok ↦ nomatch hok
  | recv => exact h.recv hstep
  | timeout =>
    obtain ⟨t, ht, hstep⟩ := Option.bind_eq_some_iff.mp hstep
    split at hstep
    · cases hstep
      exact h.received ht (fun _ hd ↦ nomatch hd) (fun _ _ hd ↦ nomatch hd)
    · cases hstep
  | recv_error =>
    obtain ⟨t, ht, hstep⟩ := Option.bind_eq_some_iff.mp hstep
    cases hstep
    exact h.received ht (fun _ hd ↦ nomatch hd) (fun _ _ hd ↦ nomatch hd)
  | lose_request i =>
    cases hstep
    exact h.network List.eraseIdx_subset (List.Subset.refl _)
  | duplicate_request i =>
    cases hstep
    exact h.network (duplicate_subset _ i) (List.Subset.refl _)
  | serve i => exact h.serve hstep
  | send_B i => exact h.send_B hstep
  | send_A i => exact h.send_A hstep
  | lose_reply i =>
    cases hstep
    exact h.network (List.Subset.refl _) (List.append_subset.mpr
      ⟨List.Subset.trans List.eraseIdx_subset (List.subset_append_left _ _), List.subset_append_right _ _⟩)
  | duplicate_reply i =>
    cases hstep
    exact h.network (List.Subset.refl _) (List.append_subset.mpr
      ⟨List.Subset.trans (duplicate_subset _ i) (List.subset_append_left _ _), List.subset_append_right _ _⟩)
  | arrive i =>
    obtain ⟨d, hd, hstep⟩ := Option.bind_eq_some_iff.mp hstep
    cases hstep
    refine h.network (List.Subset.refl _) ?_
    intro e he
    simp only [List.mem_append, List.mem_singleton] at he ⊢
    rcases he with he | he | rfl
    · exact .inl (List.eraseIdx_subset he)
    · exact .inr he
    · exact .inl (List.mem_of_getElem? hd)

end Sound

/-! ## Results -/

theorem sound_of_run {s : Session} {actions : List Action} (hrun : run step start actions = some s) :
    Sound s :=
  run_invariant Sound (fun _ _ _ h _ hstep ↦ h.step hstep) sound_start (guarded_true step start actions) hrun

/-- **Genuine replies.** If nothing was left of earlier calls when a call started, and the call returned
0, then both replies it accepted were sent by children made for its own request, the second one after
the silence it asked for. If the request was not duplicated, both are from one child. -/
theorem accepted_genuine {s : Session} {actions : List Action}
    (hrun : run step start actions = some s) {call : Call} (hcall : call ∈ s.calls)
    (hclean : call.clean) (hcode : call.result.code = 0) :
    ∃ b a, call.result = .ok b a ∧ Genuine s.children call.number call.seconds b a ∧
      (Single s.children call.number → Credited s.children call.number call.seconds b a) := by
  cases hresult : call.result with
  | ok b a =>
    have hgenuine := (sound_of_run hrun).genuine call hcall hclean b a hresult
    exact ⟨b, a, rfl, hgenuine, hgenuine.credited⟩
  | send | fail l | strange l =>
    rw [hresult] at hcode
    cases hcode

/-! ### Concrete runs -/

/-- The calls are the first ones of some experiment. -/
def Begins (calls : List Call) : Prop :=
  ∃ outcomes fuel r calls', one_experiment outcomes fuel = some (r, calls') ∧
    calls.map (fun call ↦ (call.seconds, decide (call.result.code = 0))) <+: calls'

/-- A call for one second of silence, at a time when the network works. -/
private def prompt : List Action :=
  [.call 1, .serve 0, .send_B 0, .arrive 0, .recv, .tick 1000000000, .send_A 0, .arrive 0, .recv]

/-- The second reply to the first call comes two seconds late. The second call takes it for its first
reply and fails. The third call gets the replies to the second one. -/
private def late : List Action :=
  [.call 1, .serve 0, .send_B 0, .arrive 0, .recv, .tick 1000000000, .send_A 0, .tick 2000000000,
    .timeout, .call 1, .arrive 0, .recv, .call 1, .serve 0, .send_B 1, .arrive 0, .recv,
    .tick 1000000000, .send_A 1, .arrive 0, .recv]

/-- The request is duplicated. The first reply of one child is lost, and so is the second of the other. -/
private def twice : List Action :=
  [.call 1, .duplicate_request 0, .serve 0, .send_B 0, .lose_reply 0, .tick 1000000000, .serve 0,
    .send_B 1, .arrive 0, .recv, .send_A 0, .arrive 0, .recv]

private theorem calls_prompt : (run step start prompt).map calls =
    some [⟨0, 1, true, .ok ⟨Letter.B.text, 0, 0⟩ ⟨Letter.A.text, 0, 1000000000⟩⟩] := by
  decide +kernel

private theorem calls_late : (run step start late).map (fun s ↦ (s.calls, s.children.map Child.call)) =
    some ([⟨0, 1, true, .fail .A⟩, ⟨1, 1, false, .strange .B⟩,
      ⟨2, 1, false, .ok ⟨Letter.B.text, 1, 3000000000⟩ ⟨Letter.A.text, 1, 4000000000⟩⟩], [0, 1]) := by
  decide +kernel

private theorem calls_twice : (run step start twice).map calls =
    some [⟨0, 1, true, .ok ⟨Letter.B.text, 1, 1000000000⟩ ⟨Letter.A.text, 0, 1000000000⟩⟩] := by
  decide +kernel

theorem accepted_genuine_prompt : ∃ s call, run step start prompt = some s ∧ call ∈ s.calls ∧
    ∃ b a, call.result = .ok b a ∧ Genuine s.children call.number call.seconds b a ∧
      (Single s.children call.number → Credited s.children call.number call.seconds b a) := by
  obtain ⟨s, hrun, hcalls⟩ := Option.map_eq_some_iff.mp calls_prompt
  have hmem : ⟨0, 1, true, .ok ⟨Letter.B.text, 0, 0⟩ ⟨Letter.A.text, 0, 1000000000⟩⟩ ∈ s.calls := by
    rw [hcalls]
    exact List.mem_cons_self
  exact ⟨s, _, hrun, hmem, accepted_genuine hrun hmem rfl rfl⟩

/-- In the first three calls of an experiment, a call returns 0 with the replies to another request. And
the first call of an experiment, with nothing left of earlier ones, returns 0 with the replies of two
children, without any silence between them. -/
theorem accepted_foreign :
    (∃ actions s call b a, run step start actions = some s ∧ Begins s.calls ∧ call ∈ s.calls ∧
      call.result.code = 0 ∧ call.result = .ok b a ∧
      ¬Credited s.children call.number call.seconds b a) ∧
    ∃ actions s call b a, run step start actions = some s ∧ Begins s.calls ∧ call ∈ s.calls ∧
      call.clean ∧ call.result.code = 0 ∧ call.result = .ok b a ∧
      ¬Credited s.children call.number call.seconds b a := by
  constructor
  · obtain ⟨s, hrun, hs⟩ := Option.map_eq_some_iff.mp calls_late
    obtain ⟨hcalls, hchildren⟩ := Prod.mk.inj hs
    refine ⟨late, s, ⟨2, 1, false, .ok ⟨Letter.B.text, 1, 3000000000⟩ ⟨Letter.A.text, 1, 4000000000⟩⟩,
      _, _, hrun, ?_, ?_, rfl, rfl, ?_⟩
    · -- only the third call succeeds
      refine ⟨fun calls _ ↦ calls.length = 2, 30, 1,
        [(1, false), (1, false), (1, true), (2, false), (2, false), (2, false)], by decide, ?_⟩
      rw [hcalls]
      decide
    · rw [hcalls]
      decide
    · -- the replies are from the child for the second call
      rintro ⟨⟨c, hc, hcall⟩, -, -⟩
      have hget : (s.children.map Child.call)[1]? = some 2 := by
        rw [List.getElem?_map, hc, Option.map_some, hcall]
      rw [hchildren] at hget
      exact absurd hget (by decide)
  · obtain ⟨s, hrun, hcalls⟩ := Option.map_eq_some_iff.mp calls_twice
    refine ⟨twice, s, ⟨0, 1, true, .ok ⟨Letter.B.text, 1, 1000000000⟩ ⟨Letter.A.text, 0, 1000000000⟩⟩,
      _, _, hrun, ?_, ?_, rfl, rfl, rfl, ?_⟩
    · -- only the first call succeeds
      refine ⟨fun calls _ ↦ calls.length = 0, 30, 1,
        [(1, true), (2, false), (2, false), (2, false)], by decide, ?_⟩
      rw [hcalls]
      decide
    · rw [hcalls]
      decide
    · rintro ⟨-, hsame, -⟩
      exact absurd hsame (by decide)

end Session

end ViTools.UdpTimeoutChecker
