import Potato.SessionInvariant

/-!
# Callbacks that end the session

The handlers go on behind a user callback. `handleReadEvent` asks the event for
its mode and `handleWriteEvent` may ask it to ignore output, both without a new
look at the pointers, which a callback clears when it ends the session. Where no
callback does that below such a statement, no step meets a null pointer.
-/
namespace Potato
open Machine

/-- A frame that a handler leaves on top of what runs already. -/
def Frame.IsNested : Frame → Bool
  | user _ | resetTail => true
  | _ => false

/-- The code of a handler that waits below nested frames. -/
inductive Base : List Frame → Prop
  | nothing : Base []
  | readTest : Base [.readTest]
  | writeTail : Base [.writeTail]

/-- The shape of a stack: `read` is pending with nothing around it, or nested frames lie on
at most one handler. -/
def Layered (stack : List Frame) : Prop :=
  stack = [.readBody] ∨
    ∃ pre base, stack = pre ++ base ∧ (∀ frame ∈ pre, frame.IsNested = true) ∧ Base base

theorem Layered.of_nested {stack : List Frame} (h : ∀ frame ∈ stack, frame.IsNested = true) :
    Layered stack :=
  .inr ⟨stack, [], (List.append_nil stack).symm, h, .nothing⟩

theorem Layered.rest_eq_nil {frame : Frame} {rest : List Frame} (h : Layered (frame :: rest))
    (hf : frame.IsNested = false) : rest = [] := by
  rcases h with h | ⟨pre, base, h, hpre, hbase⟩
  · exact (List.cons_eq_cons.mp h).2
  · cases pre with
    | nil =>
      rw [List.nil_append] at h
      subst h
      cases hbase <;> rfl
    | cons frame' pre =>
      obtain ⟨rfl, -⟩ := List.cons_eq_cons.mp h
      rw [hpre frame List.mem_cons_self] at hf
      cases hf

theorem Layered.tail {frame : Frame} {rest : List Frame} (h : Layered (frame :: rest)) :
    Layered rest := by
  cases hf : frame.IsNested with
  | false =>
    rw [h.rest_eq_nil hf]
    exact .of_nested fun _ hmem => nomatch hmem
  | true =>
    rcases h with h | ⟨pre, base, h, hpre, hbase⟩
    · cases h
      cases hf
    · cases pre with
      | nil =>
        rw [List.nil_append] at h
        subst h
        cases hbase <;> cases hf
      | cons frame' pre =>
        obtain ⟨rfl, rfl⟩ := List.cons_eq_cons.mp h
        exact .inr ⟨pre, base, rfl, fun f hmem => hpre f (List.mem_cons_of_mem _ hmem), hbase⟩

theorem Layered.nested_append {pre stack : List Frame} (h : Layered stack)
    (hturn : Session.UserTurn stack = true) (hpre : ∀ frame ∈ pre, frame.IsNested = true) :
    Layered (pre ++ stack) := by
  rcases h with h | ⟨pre', base, rfl, hpre', hbase⟩
  · rw [h] at hturn
    cases hturn
  · refine .inr ⟨pre ++ pre', base, (List.append_assoc ..).symm, ?_, hbase⟩
    intro frame hmem
    rcases List.mem_append.mp hmem with hmem | hmem
    · exact hpre frame hmem
    · exact hpre' frame hmem

theorem Layered.not_readBody {stack : List Frame} (h : Layered stack)
    (hturn : Session.UserTurn stack = true) : .readBody ∉ stack := by
  rcases h with h | ⟨pre, base, rfl, hpre, hbase⟩
  · rw [h] at hturn
    cases hturn
  · rw [List.mem_append, not_or]
    exact ⟨fun hmem => (nomatch hpre _ hmem), by cases hbase <;> simp⟩

/-- Code that runs nested inside another handler, or with nothing below it. -/
def Act.IsInner : Act → Bool
  | bindFunctor | handleCloseEvent | writeFunctor _ _ | close | write _ _ | take _ => true
  | _ => false

namespace TcpConnection
variable {c : TcpConnection} {e : Effect} {act : Act}

theorem nested_calling {callback : Callback} {o : Obs} {rest : List Frame}
    (h : ∀ frame ∈ rest, frame.IsNested = true) :
    ∀ frame ∈ (c.calling callback o rest).frames, frame.IsNested = true := by
  intro frame hmem
  rcases calling_frames callback o rest with hf | hf <;> rw [hf] at hmem
  · exact h frame hmem
  · rcases List.mem_cons.mp hmem with rfl | hmem
    · rfl
    · exact h frame hmem

theorem nested_shut {event : IOEvent} {socket : Socket} :
    ∀ frame ∈ ((c.shut event socket).calling .connection (.connection false) [.resetTail]).frames,
      frame.IsNested = true :=
  nested_calling (by simp [Frame.IsNested])

theorem Move.nested (hm : c.Move act e) (hact : act.IsInner = true) :
    ∀ frame ∈ e.frames, frame.IsNested = true := by
  cases hm with
  | ignored | appended | sentPart | consumed => exact fun _ hmem => nomatch hmem
  | registered => exact nested_calling (by simp)
  | sentAll _ _ _ _ _ _ he =>
    subst he
    exact nested_calling (by simp)
  | closed _ _ _ hclose he =>
    subst he
    cases hclose with
    | writeError => cases hact
    | _ =>
      dsimp only
      rw [List.append_nil]
      exact nested_shut
  | _ => cases hact

theorem layered_calling {callback : Callback} {o : Obs} {rest : List Frame} (h : Base rest) :
    Layered (c.calling callback o rest).frames := by
  rcases calling_frames callback o rest with hf | hf <;> rw [hf]
  · exact .inr ⟨[], rest, rfl, by simp, h⟩
  · exact .inr ⟨[.user callback], rest, rfl, by simp [Frame.IsNested], h⟩

theorem Closes.base {event : IOEvent} {seen : List Obs} {tail : List Frame}
    (h : Closes c event act seen tail) : Base tail := by
  cases h with
  | writeError => exact .writeTail
  | _ => exact .nothing

theorem Move.layered (hm : c.Move act e) : Layered e.frames := by
  cases hm with
  | ignored | blocked | broken | consumed | appended | sentPart | tailed | unbound =>
    exact .of_nested fun _ hmem => nomatch hmem
  | reading => exact .inl rfl
  | looped =>
    dsimp only
    split_ifs
    · exact .inl rfl
    · exact .of_nested fun _ hmem => nomatch hmem
  | registered => exact layered_calling .nothing
  | received _ _ _ _ _ _ he =>
    subst he
    exact layered_calling .readTest
  | sentAll _ _ _ _ _ _ he =>
    subst he
    exact layered_calling .nothing
  | flushedAll _ _ _ _ _ _ _ _ he =>
    subst he
    exact layered_calling .writeTail
  | flushedPart | stalled => exact .inr ⟨[], [.writeTail], rfl, by simp, .writeTail⟩
  | closed _ _ _ hclose he =>
    subst he
    exact .inr ⟨_, _, rfl, nested_shut, hclose.base⟩

/-- Only a close leaves `resetTail` to run. -/
theorem Move.closed_of_mem (hm : c.Move act e) (hmem : .resetTail ∈ e.frames) :
    ∃ event socket seen tail, c.Bound event socket ∧ socket.connected = true ∧
      Closes c event act seen tail ∧ e.conn = c.shut event socket ∧
      e.frames = ((c.shut event socket).calling .connection (.connection false)
        [.resetTail]).frames ++ tail := by
  cases hm with
  | closed hb hc hin hclose he =>
    subst he
    exact ⟨_, _, _, _, hb, hc, hclose, calling_conn .., rfl⟩
  | registered => exact absurd hmem (not_mem_calling (by simp) (by simp))
  | received _ _ _ _ _ _ he | sentAll _ _ _ _ _ _ he =>
    subst he
    exact absurd hmem (not_mem_calling (by simp) (by simp))
  | flushedAll _ _ _ _ _ _ _ _ he =>
    subst he
    exact absurd hmem (not_mem_calling (by simp) (by simp))
  | looped =>
    dsimp only at hmem
    split_ifs at hmem <;> simp at hmem
  | unbound => simp [resetTail] at hmem
  | _ => simp at hmem

theorem Move.event_kept (hm : c.Move act e) (hact : act ≠ .resetTail) (h : c.ioEvent ≠ none) :
    e.conn.ioEvent ≠ none := by
  have hkey_none (hno : e.conn.ioEvent = none) : e.conn.eventKey = none := by
    rw [eventKey, hno]
    rfl
  obtain ⟨event, he⟩ := Option.ne_none_iff_exists'.mp h
  cases hm.shape with
  | kept _ _ hkey =>
    intro hno
    rw [hkey_none hno, Session.eventKey_some he] at hkey
    cases hkey
  | registered _ _ _ _ _ hkey =>
    intro hno
    rw [hkey_none hno] at hkey
    cases hkey
  | closed _ _ _ hshut => simp [hshut, shut]
  | unbound hno => exact absurd hno hact

theorem Move.content_kept (hm : c.Move act e) (hact : ∀ w, act ≠ .handleWriteEvent w)
    (h : c.writeBuffer.content ≠ []) : e.conn.writeBuffer.content ≠ [] := by
  cases hm with
  | flushedAll | flushedPart => exact absurd rfl (hact _)
  | appended _ _ _ _ _ hcont | sentPart _ _ _ _ _ _ _ _ hcont =>
    intro hno
    have hnil := hcont.symm.trans hno
    simp_all
  | registered => rwa [calling_conn]
  | closed _ _ _ _ he | received _ _ _ _ _ _ he | sentAll _ _ _ _ _ _ he =>
    subst he
    dsimp only
    rwa [calling_conn]
  | _ => exact h

/-- A handler that leaves code of its own to run has its event. -/
theorem Move.waits_bound (h : c.Held) (hm : c.Move act e)
    (hmem : ∃ frame ∈ e.frames, frame.IsNested = false) : e.conn.ioEvent ≠ none := by
  have hopen (hc : c.isConnected = true) : c.ioEvent ≠ none := by
    obtain ⟨event, socket, hb, -⟩ := h.bound_of_connected hc
    simp [hb.event_eq]
  have hinner (hact : act.IsInner = true) : False := by
    obtain ⟨frame, hmem, hf⟩ := hmem
    rw [hm.nested hact frame hmem] at hf
    cases hf
  have hm' := hm
  cases hm with
  | reading hc => exact hm'.event_kept (by simp) (hopen hc)
  | received hc => exact hm'.event_kept (by simp) (hopen hc)
  | looped he => exact hm'.event_kept (by simp) (by simp [he])
  | closed hb hc hin hclose =>
    exact hm'.event_kept hclose.ne_resetTail.1 (by simp [hb.event_eq])
  | flushedAll hb | flushedPart hb | stalled hb =>
    exact hm'.event_kept (by simp) (by simp [hb.event_eq])
  | registered => exact (hinner rfl).elim
  | appended hsub | sentAll hsub | sentPart hsub =>
    exact (hinner (by rcases hsub with rfl | rfl <;> rfl)).elim
  | _ =>
    obtain ⟨frame, hmem, -⟩ := hmem
    cases hmem

end TcpConnection

namespace Session
variable {srv : TcpServer} {s t : Session} {l : Label}

theorem isInner_of_isCall {act : Act} (h : act.IsCall = true) : act.IsInner = true := by
  cases act <;> first | rfl | cases h

/-- The code of a turn lies on the rest of the stack in one of two ways. -/
theorem Turn.nested_or_bottom {act : Act} {rest : List Frame} (h : Turn s l act rest)
    (hs : Layered s.stack) :
    (l = .call act ∧ rest = s.stack ∧ UserTurn s.stack = true ∧ act.IsCall = true) ∨
      (act = .resetTail ∧ s.stack = .resetTail :: rest) ∨ rest = [] := by
  cases h with
  | bound | dispatch | posted => exact .inr (.inr rfl)
  | call hturn hcall => exact .inl ⟨rfl, rfl, hturn, hcall⟩
  | read hstack | readTest hstack | writeTail hstack =>
    rw [hstack] at hs
    exact .inr (.inr (hs.rest_eq_nil rfl))
  | resetTail hstack => exact .inr (.inl ⟨rfl, hstack⟩)

theorem layered_step (h : Layered s.stack) (hi : Inv srv s) (hs : Session.step srv s l = .next t) :
    Layered t.stack := by
  cases step_next hi.held hs with
  | accepted | polled | skipped => exact h
  | returned hstack =>
    rw [hstack] at h
    exact h.tail
  | @ran _ act rest e _ hturn hact hm hconn hstack =>
    rw [hstack]
    rcases hturn.nested_or_bottom h with ⟨-, hrest, hut, hcall⟩ | ⟨hact', hrest⟩ | hrest
    · rw [hrest]
      exact h.nested_append hut (hm.nested (isInner_of_isCall hcall))
    · subst hact'
      rw [hrest] at h
      have hf : e.frames = [] := by
        cases hm.shape with
        | unbound _ he =>
          rw [he]
          rfl
        | kept _ _ _ _ hno => exact absurd rfl hno
        | registered hno => cases hno
        | closed _ _ _ _ _ hno => exact absurd rfl hno
      rw [hf, List.nil_append]
      exact h.tail
    · rw [hrest, List.append_nil]
      exact hm.layered

/-- User code does not close the connection while its `handleReadEvent` is running, nor while
its `handleWriteEvent` is running and nothing is left to be written. -/
def Quiet (s : Session) : Label → Bool
  | .call act => !s.conn.Shuts act || (!s.stack.contains .readTest &&
      (!s.stack.contains .writeTail || decide (s.conn.writeBuffer.content ≠ [])))
  | _ => true

/-- What waits on the stack finds its pointer set, also behind a `resetTail` above it. -/
structure Linked (s : Session) : Prop where
  layered : Layered s.stack
  reading : .readBody ∈ s.stack ∨ .readTest ∈ s.stack → s.conn.ioEvent ≠ none
  flushing : .writeTail ∈ s.stack → s.conn.ioEvent ≠ none ∨ s.conn.writeBuffer.content ≠ []
  closing : .resetTail ∈ s.stack → .readBody ∉ s.stack ∧ .readTest ∉ s.stack ∧
    (.writeTail ∈ s.stack → s.conn.writeBuffer.content ≠ [])

theorem Linked.start (index : ℕ) : Linked (start index) where
  layered := .of_nested fun _ hmem => nomatch hmem
  reading := fun h => h.elim (fun hmem => nomatch hmem) fun hmem => nomatch hmem
  flushing := fun hmem => nomatch hmem
  closing := fun hmem => nomatch hmem

/-- What a close leaves to run does not need a pointer, unless user code was called from a
handler that does. -/
theorem closing_frames {c : TcpConnection} {act : Act} {e : Effect} (hm : c.Move act e)
    (hmem : .resetTail ∈ e.frames) : .readBody ∉ e.frames ∧ .readTest ∉ e.frames ∧
      (.writeTail ∈ e.frames → e.conn.writeBuffer.content ≠ []) := by
  obtain ⟨event, socket, seen, tail, hb, hc, hclose, hconn, hf⟩ := hm.closed_of_mem hmem
  have hnested := @TcpConnection.nested_shut c event socket
  have hnot {frame : Frame} (hf' : frame.IsNested = false) : frame ∉
      ((c.shut event socket).calling .connection (.connection false) [.resetTail]).frames := by
    intro hno
    rw [hnested frame hno] at hf'
    cases hf'
  rw [hf, hconn]
  cases hclose with
  | writeError hw hne =>
    refine ⟨?_, ?_, fun _ => hne⟩
    · rw [List.mem_append, not_or]
      exact ⟨hnot rfl, by simp⟩
    · rw [List.mem_append, not_or]
      exact ⟨hnot rfl, by simp⟩
  | _ =>
    rw [List.append_nil]
    exact ⟨hnot rfl, hnot rfl, fun hno => absurd hno (hnot rfl)⟩

theorem Linked.step (h : Linked s) (hi : Inv srv s) (hq : Quiet s l = true)
    (hs : Session.step srv s l = .next t) : Linked t := by
  have hlayered := layered_step h.layered hi hs
  cases step_next hi.held hs with
  | accepted ha =>
    exact ⟨hlayered, fun _ => Option.some_ne_none _, fun _ => .inl (Option.some_ne_none _),
      h.closing⟩
  | polled | skipped => exact ⟨hlayered, h.reading, h.flushing, h.closing⟩
  | returned hstack =>
    rename_i callback rest
    have hsub {frame : Frame} (hmem : frame ∈ rest) : frame ∈ s.stack := by
      rw [hstack]
      exact List.mem_cons_of_mem _ hmem
    refine ⟨hlayered, fun hmem => h.reading (hmem.imp hsub hsub), fun hmem => h.flushing (hsub hmem),
      fun hmem => ?_⟩
    obtain ⟨h₁, h₂, h₃⟩ := h.closing (hsub hmem)
    exact ⟨fun hno => h₁ (hsub hno), fun hno => h₂ (hsub hno), fun hm => h₃ (hsub hm)⟩
  | @ran _ act rest e _ hturn hact hm hconn hstack =>
    rcases hturn.nested_or_bottom h.layered with ⟨rfl, hrest, hut, hcall⟩ | ⟨hact', hrest⟩ | hrest
    · -- a call of user code: what it pushes is nested, so nothing new waits for a pointer
      subst hrest
      have hnested := hm.nested (isInner_of_isCall hcall)
      have hold {frame : Frame} (hf : frame.IsNested = false) (hmem : frame ∈ t.stack) :
          frame ∈ s.stack := by
        rw [hstack, List.mem_append] at hmem
        refine hmem.resolve_left fun hno => ?_
        rw [hnested frame hno] at hf
        cases hf
      have hkept := hm.event_kept (by rintro rfl; cases hcall)
      have hcontent := hm.content_kept (by rintro w rfl; cases hcall)
      refine ⟨hlayered, ?_, ?_, ?_⟩
      · intro hmem
        rw [hconn]
        exact hkept (h.reading (hmem.imp (hold rfl) (hold rfl)))
      · intro hmem
        rw [hconn]
        exact (h.flushing (hold rfl hmem)).imp hkept hcontent
      · intro hmem
        rw [hconn]
        by_cases hpend : .resetTail ∈ s.stack
        · obtain ⟨h₁, h₂, h₃⟩ := h.closing hpend
          exact ⟨fun hno => h₁ (hold rfl hno), fun hno => h₂ (hold rfl hno),
            fun hmem => hcontent (h₃ (hold rfl hmem))⟩
        · rw [hstack, List.mem_append] at hmem
          obtain ⟨event, socket, seen, tail, hb, hc, hclose, -⟩ :=
            hm.closed_of_mem (hmem.resolve_right hpend)
          have hends := hclose.shuts hb hc
          simp only [Quiet, hends, Bool.not_true, Bool.false_or, Bool.and_eq_true,
            Bool.or_eq_true, Bool.not_eq_true', List.contains_eq_mem, decide_eq_false_iff_not,
            decide_eq_true_eq] at hq
          refine ⟨fun hno => h.layered.not_readBody hut (hold rfl hno),
            fun hno => hq.1 (hold rfl hno), fun hmem => ?_⟩
          · exact hcontent (hq.2.resolve_left fun hno => hno (hold rfl hmem))
    · -- the rest of `reset` clears the pointers below a stack that does not need them
      subst hact'
      have hframes : e.frames = [] ∧ e.conn.writeBuffer = s.conn.writeBuffer := by
        cases hm.shape with
        | unbound _ he =>
          rw [he]
          exact ⟨rfl, rfl⟩
        | kept _ _ _ _ hno => exact absurd rfl hno
        | registered hno => cases hno
        | closed _ _ _ _ _ hno => exact absurd rfl hno
      rw [hframes.1, List.nil_append] at hstack
      have hsub {frame : Frame} (hmem : frame ∈ t.stack) : frame ∈ s.stack := by
        rw [hrest, ← hstack]
        exact List.mem_cons_of_mem _ hmem
      obtain ⟨h₁, h₂, h₃⟩ := h.closing (by rw [hrest]; exact List.mem_cons_self)
      refine ⟨hlayered, fun hmem => (hmem.elim (fun hm => h₁ (hsub hm)) fun hm => h₂ (hsub hm)).elim,
        fun hmem => .inr ?_, fun _ => ⟨fun hm => h₁ (hsub hm), fun hm => h₂ (hsub hm),
          fun hmem => ?_⟩⟩ <;>
      · rw [hconn, hframes.2]
        exact h₃ (hsub hmem)
    · -- nothing lies below: all that waits was left by this piece of code
      rw [hrest, List.append_nil] at hstack
      refine ⟨hlayered, ?_, ?_, ?_⟩
      · intro hmem
        rw [hstack] at hmem
        rw [hconn]
        rcases hmem with hmem | hmem
        · exact hm.waits_bound hi.held ⟨_, hmem, rfl⟩
        · exact hm.waits_bound hi.held ⟨_, hmem, rfl⟩
      · intro hmem
        rw [hstack] at hmem
        rw [hconn]
        exact .inl (hm.waits_bound hi.held ⟨_, hmem, rfl⟩)
      · rw [hstack, hconn]
        exact closing_frames hm

theorem Linked.ne_nullPointer (h : Linked s) (hi : Inv srv s) :
    Session.step srv s l ≠ .fault .nullPointer := by
  intro hf
  rcases hi.step_fault hf with ⟨hf, -⟩ | ⟨act, rest, hturn, hcause⟩
  · cases hf
  · cases hcause with
    | plain hp => cases hp
    | nullPointer hu hneeds =>
      have hnone := hu.2.1
      cases hturn with
      | bound _ hp => exact absurd (hi.posted hp) (by simp [hu.isConnected])
      | read hstack => exact h.reading (.inl (by rw [hstack]; exact List.mem_cons_self)) hnone
      | readTest hstack => exact h.reading (.inr (by rw [hstack]; exact List.mem_cons_self)) hnone
      | writeTail hstack =>
        rcases h.flushing (by rw [hstack]; exact List.mem_cons_self) with hno | hno
        · exact hno hnone
        · exact hno hneeds
      | resetTail => exact hneeds
      | call _ hcall => cases act <;> first | exact hneeds | cases hcall
      | posted _ hfun => cases act <;> first | exact hneeds | cases hfun
      | @dispatch _ _ _ callback _ _ _ _ _ hact =>
        subst hact
        cases callback <;> exact hneeds

end Session
end Potato
