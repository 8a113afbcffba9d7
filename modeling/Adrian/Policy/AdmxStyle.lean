import Adrian.Lib.Outcome
import Adrian.Policy.Admx
import Mathlib

/-!
# The style of tags

An element without content comes as one event when its tag is self-closing, and otherwise as the
events of its two tags, and the pass has rules of its own for either.  Whether they agree depends on
what is open in the state before the element.  The states after the two styles are compared in all
that is still read: the display name and the value of an item make no difference if the enumeration
around it is taken before the item is closed.
-/

namespace Admx

open Utf8

/-! ### What is open -/

abbrev kindOf (name : Bytes) : Kind :=
  Kind.ofName (splitNs name)

/-- The end tag of such an element takes the element that is open in the state. -/
def Kind.takes : Kind → Bool
  | text | boolean | decimal | enum => true
  | _ => false

/-- The elements that are open after the event, the innermost first. -/
def opens (opened : List Bytes) : Event → List Bytes
  | .start tag => tag.name :: opened
  | .close _ => opened.tail
  | _ => opened

theorem wellFormedFrom_cons {root : Bool} {opened : List Bytes} {e : Event}
    {rest : List Event} (h : WellFormedFrom root opened (e :: rest)) :
  ∃ root', WellFormedFrom root' (opens opened e) rest
  := by
  cases e with
  | start tag => exact ⟨_, h.2.2⟩
  | empty tag => exact ⟨_, h.2.2⟩
  | close name => exact ⟨_, h.2⟩
  | text unescaped => exact ⟨_, h.2.2⟩
  | cData bytes => exact ⟨_, h.2⟩
  | ignored => exact ⟨_, h⟩
  | error reason => exact h.elim

theorem wellFormedFrom_append {root : Bool} {opened : List Bytes} {before rest : List Event}
    (h : WellFormedFrom root opened (before ++ rest)) :
  ∃ root', WellFormedFrom root' (before.foldl opens opened) rest
  := by
  induction before generalizing root opened with
  | nil => exact ⟨root, h⟩
  | cons e before ih =>
    obtain ⟨root', hrest⟩ := wellFormedFrom_cons h
    apply ih hrest

theorem State.push_eq (s : State) (element : Option AdmxElement) :
  s.push element = { s with
    currentPolicy := s.currentPolicy.map fun p =>
      { p with elements := p.elements ++ element.toList } }
  := by
  cases element with
  | none => simp [State.push]
  | some element => rfl

def State.inEnum (s : State) : Bool :=
  match s.currentElement with
  | some (.enum _ _) => true
  | _ => false

/-- The next end tag to come that changes an open element is that of an item. -/
def closesItem : List Bytes → Bool
  | [] => false
  | name :: opened => kindOf name = .item || (!(kindOf name).takes && closesItem opened)

/-! ### Display names and values that are not read again -/

/-- The states are the same but for the display name and the value of an item, and these are not
read again, as no item is closed before the open enumeration is. -/
def Alike (opened : List Bytes) (s s' : State) : Prop :=
  ∃ display value,
    s' = { s with currentEnumItemDisplay := display, currentEnumItemValue := value }
      ∧ (s = s' ∨ (s.inEnum = true → closesItem opened = false))

/-- The policies that are read from the state on, if it has been reached. -/
def policiesFrom (state : Except AdmxError State) (after : List Event) :
    Except AdmxError (List AdmxPolicy) :=
  (state >>= fun s => after.foldlM State.event s).map State.policies

namespace Alike

variable {opened : List Bytes} {s s' : State}

theorem refl (opened : List Bytes) (s : State) :
  Alike opened s s
  := ⟨_, _, rfl, .inl rfl⟩

/-- Both states go on to states that are alike, or fail in the same way. -/
def Onward (opened : List Bytes) : Except AdmxError State → Except AdmxError State → Prop
  | .ok s, .ok s' => Alike opened s s'
  | .error e, .error e' => e = e'
  | _, _ => False

theorem onward_refl (opened : List Bytes) (state : Except AdmxError State) :
  Onward opened state state
  := by
  cases state with
  | error e => rfl
  | ok s => apply refl

theorem Onward.cases {state state' : Except AdmxError State} (h : Onward opened state state') :
  (∃ e, state = .error e ∧ state' = .error e)
    ∨ ∃ s s', state = .ok s ∧ state' = .ok s' ∧ Alike opened s s'
  := by
  cases state with
  | error e =>
    cases state' with
    | error e' =>
      cases (show e = e' from h)
      exact .inl ⟨e, rfl, rfl⟩
    | ok s' => exact h.elim
  | ok s =>
    cases state' with
    | error e' => exact h.elim
    | ok s' => exact .inr ⟨s, s', rfl, rfl, h⟩

theorem start (h : Alike opened s s') (x : Tag) :
  Onward (x.name :: opened) (s.start x) (s'.start x)
  := by
  obtain ⟨display, value, rfl, heq | hdead⟩ := h
  · rw [← heq]
    apply onward_refl
  rw [State.start, State.start]
  cases hk : Kind.ofName (splitNs x.name)
  case policy =>
    cases hp : x.policy with
    | error e => rfl
    | ok p =>
      refine ⟨display, value, rfl, .inr ?_⟩
      simpa [closesItem, hk, Kind.takes, State.inEnum] using hdead
  case supportedOn =>
    refine ⟨display, value, ?_, .inr ?_⟩
    all_goals
      rw [State.supportedOn]
      split
      all_goals simp_all [closesItem, Kind.takes, State.inEnum, State.supportedOn]
  case text | boolean | decimal | enum =>
    refine ⟨display, value, ?_, .inr (by simp [closesItem, hk, Kind.takes])⟩
    rw [State.begin.eq_def, State.begin.eq_def]
    split <;> rfl
  case item =>
    dsimp only
    split
    · exact refl _ _
    · refine ⟨display, value, rfl, .inr ?_⟩
      simp_all [State.inEnum]
  case displayName | value =>
    dsimp only
    split_ifs
    all_goals
      refine ⟨_, value, rfl, .inr ?_⟩
      simpa [closesItem, hk, Kind.takes, State.inEnum] using hdead
  case other =>
    refine ⟨display, value, rfl, .inr ?_⟩
    simpa [closesItem, hk, Kind.takes, State.inEnum] using hdead

theorem empty (h : Alike opened s s') (x : Tag) :
  Alike opened (s.empty x) (s'.empty x)
  := by
  obtain ⟨display, value, rfl, heq | hdead⟩ := h
  · rw [← heq]
    apply refl
  rw [State.empty, State.empty]
  cases hk : Kind.ofName (splitNs x.name)
  case text | boolean =>
    simp only [State.push_eq]
    exact ⟨display, value, rfl, .inr hdead⟩
  case decimal =>
    simp only [State.push_eq]
    split_ifs
    · split
      · exact ⟨display, value, rfl, .inr hdead⟩
      · exact ⟨display, _, rfl, .inr hdead⟩
    · exact ⟨display, value, rfl, .inr hdead⟩
  case supportedOn =>
    simp only [State.supportedOn]
    split
    all_goals exact ⟨display, value, rfl, .inr hdead⟩
  all_goals exact ⟨display, value, rfl, .inr hdead⟩

theorem close {name : Bytes} (h : Alike (name :: opened) s s') :
  Alike opened (s.close name) (s'.close name)
  := by
  obtain ⟨display, value, rfl, heq | hdead⟩ := h
  · rw [← heq]
    apply refl
  rw [State.close, State.close]
  cases hk : Kind.ofName (splitNs name)
  case text | boolean | decimal | enum =>
    simp only [State.endElement, State.push_eq]
    refine ⟨display, value, rfl, .inr ?_⟩
    simp [State.inEnum]
  case item =>
    have hno : s.inEnum = false := by
      simpa [closesItem, hk] using hdead
    dsimp only
    split_ifs
    · have heq : s.endItem = State.endItem { s with
          currentEnumItemDisplay := display, currentEnumItemValue := value } := by
        simp only [State.endItem]
        split
        · simp_all [State.inEnum]
        · rfl
      rw [← heq]
      apply refl
    · refine ⟨display, value, rfl, .inr ?_⟩
      simp [hno]
  all_goals
    refine ⟨display, value, rfl, .inr ?_⟩
    simpa [closesItem, hk, Kind.takes, State.inEnum] using hdead

theorem text (h : Alike opened s s') (t : String) :
  Alike opened (s.text t) (s'.text t)
  := by
  obtain ⟨display, value, rfl, heq | hdead⟩ := h
  · rw [← heq]
    apply refl
  simp only [State.text]
  split_ifs
  all_goals exact ⟨_, value, rfl, .inr hdead⟩

theorem event (h : Alike opened s s') {e : Event} {root : Bool} {rest : List Event}
    (hwf : WellFormedFrom root opened (e :: rest)) :
  Onward (opens opened e) (s.event e) (s'.event e)
  := by
  cases e with
  | start tag => apply h.start
  | empty tag => apply h.empty
  | close name =>
    obtain ⟨rest', rfl⟩ := List.head?_eq_some_iff.mp hwf.1
    apply h.close
  | text unescaped =>
    cases unescaped with
    | error reason => rfl
    | ok t => apply h.text
  | cData bytes => apply h.text
  | ignored => exact h
  | error reason => rfl

theorem policiesFrom_eq (h : Alike opened s s') {after : List Event} {root : Bool}
    (hwf : WellFormedFrom root opened after) :
  policiesFrom (.ok s) after = policiesFrom (.ok s') after
  := by
  induction after generalizing root opened s s' with
  | nil =>
    obtain ⟨display, value, rfl, -⟩ := h
    rfl
  | cons e after ih =>
    obtain ⟨root', hwf'⟩ := wellFormedFrom_cons hwf
    have honward := h.event hwf
    change policiesFrom (s.event e) after = policiesFrom (s'.event e) after
    obtain ⟨reason, hs, hs'⟩ | ⟨t, t', hs, hs', halike⟩ := honward.cases
    · rw [hs, hs']
    · rw [hs, hs']
      apply ih halike hwf'

end Alike

/-! ### The style of a tag -/

/-- The state and the open elements before an element without content, for which the style of its
tags makes no difference. -/
def StyleIgnored (opened : List Bytes) (s : State) (x : Tag) : Prop :=
  match kindOf x.name with
  | .policy => False
  | .text | .boolean => s.currentElement = none
  | .decimal => s.currentElement = none
      ∧ (s.inEnumItemValue → s.currentPolicy = none ∨ x.attr "valueName" = none)
  | .enum => s.currentElement = none ∧ (s.currentPolicy = none ∨ x.attr "valueName" = none)
  | .item => s.inEnumItem = false ∧ s.inEnum = false
  | .displayName => s.inEnumItem → s.inEnum → closesItem opened →
      s.currentEnumItemDisplay = some ""
  | .value => s.inEnumItemValue = false
  | .supportedOn | .other => True

section

variable {opened : List Bytes} {s s' : State} {x : Tag}

theorem State.endElement_begin (h : s.currentElement = none) (element : Option AdmxElement) :
  (s.begin element).endElement = s.push element
  := by
  obtain ⟨policies, policy, _, display, value, item, inValue⟩ := s
  cases h
  cases element <;> rfl

theorem State.push_eq_self {element : Option AdmxElement}
    (h : s.currentPolicy = none ∨ element = none) :
  s.push element = s
  := by
  obtain ⟨policies, policy, _, display, value, item, inValue⟩ := s
  obtain rfl | rfl := h
  · cases element <;> rfl
  · rfl

theorem alike_of_styleIgnored (h : StyleIgnored opened s x) :
  ∃ t, (s.start x).map (State.close · x.name) = .ok t ∧ Alike opened (s.empty x) t
  := by
  rw [StyleIgnored] at h
  rw [State.start, State.empty]
  cases hk : kindOf x.name
  all_goals simp only [hk] at h ⊢
  case text | boolean =>
    refine ⟨_, rfl, ?_⟩
    simp only [State.close, hk, State.endElement_begin h]
    apply Alike.refl
  case decimal =>
    refine ⟨_, rfl, ?_⟩
    simp only [State.close, hk, State.endElement_begin h.1]
    split_ifs with hvalue
    · have hdead : s.inEnum = true → closesItem opened = false := by simp [State.inEnum, h.1]
      rw [State.push_eq_self ((h.2 hvalue).imp_right fun hnone => by rw [Tag.integer, hnone]; rfl)]
      split
      · apply Alike.refl
      · exact ⟨_, _, rfl, .inr hdead⟩
    · apply Alike.refl
  case enum =>
    refine ⟨_, rfl, ?_⟩
    simp only [State.close, hk, State.endElement_begin h.1]
    rw [State.push_eq_self (h.2.imp_right fun hnone => by rw [Tag.enum, hnone]; rfl)]
    apply Alike.refl
  case item =>
    refine ⟨s, ?_, Alike.refl _ _⟩
    split
    · simp_all [State.inEnum]
    · simp [Except.map, State.close, hk, h.1]
  case displayName =>
    refine ⟨_, rfl, ?_⟩
    simp only [State.close, hk]
    split_ifs with hitem
    · by_cases hread : s.inEnum = true ∧ closesItem opened = true
      · have hdisplay := h hitem hread.1 hread.2
        rw [← hdisplay]
        apply Alike.refl
      · refine ⟨_, _, rfl, .inr ?_⟩
        simpa using hread
    · apply Alike.refl
  case value =>
    refine ⟨_, rfl, ?_⟩
    simp only [State.close, hk]
    have heq : s = { s with inEnumItemValue := false } := by rw [← h]
    split_ifs
    all_goals
      rw [← heq]
      apply Alike.refl
  case supportedOn | other =>
    refine ⟨_, rfl, ?_⟩
    simp only [State.close, hk]
    apply Alike.refl

theorem State.currentPolicy_push {element : Option AdmxElement}
    (h : (s.push element).currentPolicy = s.currentPolicy) :
  s.currentPolicy = none ∨ element = none
  := by
  cases element with
  | none => exact .inr rfl
  | some element =>
    cases hp : s.currentPolicy with
    | none => exact .inl rfl
    | some p =>
      have helements := congrArg (Option.map (List.length ∘ AdmxPolicy.elements)) h
      simp [State.push, hp] at helements

theorem styleIgnored_of_alike {t : State} (ht : (s.start x).map (State.close · x.name) = .ok t)
    (h : Alike opened (s.empty x) t) :
  StyleIgnored opened s x
  := by
  obtain ⟨display, value, heq, hread⟩ := h
  have helement := congrArg State.currentElement heq
  have hpolicy := congrArg State.currentPolicy heq
  rw [StyleIgnored]
  rw [State.start] at ht
  rw [State.empty] at heq hread helement hpolicy
  cases hk : kindOf x.name
  all_goals
    simp only [hk, Except.map, State.close, Except.ok.injEq] at ht heq hread helement hpolicy ⊢
  case policy =>
    cases hp : x.policy with
    | error e => simp [hp] at ht
    | ok p =>
      rw [hp] at ht
      cases ht
      simpa using congrArg (List.length ∘ State.policies) heq
  case text | boolean =>
    subst ht
    simpa [State.endElement, State.push_eq] using helement.symm
  case decimal =>
    subst ht
    have hnone : s.currentElement = none := by
      split_ifs at helement
      · split at helement <;> simpa [State.endElement] using helement.symm
      · simpa [State.endElement, State.push_eq] using helement.symm
    refine ⟨hnone, fun hvalue => ?_⟩
    rw [if_pos hvalue, State.endElement_begin hnone] at hpolicy
    have hpush : (s.push x.integer).currentPolicy = s.currentPolicy := by
      split at hpolicy <;> exact hpolicy
    exact (State.currentPolicy_push hpush).imp_right fun h => by simpa [Tag.integer] using h
  case enum =>
    subst ht
    have hnone : s.currentElement = none := by simpa [State.endElement] using helement.symm
    rw [State.endElement_begin hnone] at hpolicy
    exact ⟨hnone, (State.currentPolicy_push hpolicy).imp_right fun h => by
      simpa [Tag.enum] using h⟩
  case item =>
    have hitem := congrArg State.inEnumItem heq
    rw [State.inEnum]
    rcases hcurrent : s.currentElement with _ | (_ | _ | _ | ⟨valueName, items⟩)
    all_goals simp only [hcurrent, Except.ok.injEq] at ht
    case some.enum =>
      simp [← ht, hcurrent, State.endItem] at helement
    all_goals
      refine ⟨?_, rfl⟩
      cases hin : s.inEnumItem with
      | false => rfl
      | true => simp [← ht, hin, State.endItem] at hitem
  case displayName =>
    intro hin henum hcloses
    simp only [hin, if_true] at ht
    obtain heq | hdead := hread
    · rw [heq, ← ht]
    · simp [hdead henum] at hcloses
  case value =>
    have hvalue := congrArg State.inEnumItemValue heq
    rw [← ht] at hvalue
    simpa using hvalue.symm

/-- The two styles of the tags lead to states that are alike exactly if the style is ignored. -/
theorem onward_iff_styleIgnored :
  Alike.Onward opened (.ok (s.empty x)) ((s.start x).map (State.close · x.name))
    ↔ StyleIgnored opened s x
  := by
  constructor
  · intro h
    obtain ⟨e, hok, -⟩ | ⟨_, t, hok, ht, halike⟩ := h.cases
    · cases hok
    · cases hok
      exact styleIgnored_of_alike ht halike
  · intro h
    obtain ⟨t, ht, halike⟩ := alike_of_styleIgnored h
    rw [ht]
    exact halike

theorem parseAdmx_styles {before : List Event} (hs : before.foldlM State.event State.new = .ok s)
    (x : Tag) (after : List Event) :
  parseAdmx (before ++ .empty x :: after) = policiesFrom (.ok (s.empty x)) after
    ∧ parseAdmx (before ++ .start x :: .close x.name :: after)
      = policiesFrom ((s.start x).map (State.close · x.name)) after
  := by
  simp only [parseAdmx, List.foldlM_append, hs]
  refine ⟨rfl, ?_⟩
  simp only [policiesFrom, List.foldlM_cons, State.event, bind, Except.bind]
  cases s.start x <;> rfl

end

/-- The style of the tags of an element without content leads to states that are alike, exactly if
it is ignored in the state in which the element is reached, and then it makes no difference whatever
follows in the document. -/
theorem style_ignored_iff {before : List Event} {x : Tag} {s : State}
    (hs : before.foldlM State.event State.new = .ok s) :
  (Alike.Onward (before.foldl opens []) (.ok (s.empty x)) ((s.start x).map (State.close · x.name))
      ↔ StyleIgnored (before.foldl opens []) s x)
    ∧ (StyleIgnored (before.foldl opens []) s x → ∀ after,
      WellFormed (before ++ .empty x :: after)
        ∨ WellFormed (before ++ .start x :: .close x.name :: after) →
      parseAdmx (before ++ .empty x :: after)
        = parseAdmx (before ++ .start x :: .close x.name :: after))
  := by
  refine ⟨onward_iff_styleIgnored, fun h after hwf => ?_⟩
  rw [(parseAdmx_styles hs x after).1, (parseAdmx_styles hs x after).2]
  obtain ⟨t, ht, halike⟩ := alike_of_styleIgnored h
  rw [ht]
  obtain hwf | hwf := hwf
  · obtain ⟨_, hafter⟩ := wellFormedFrom_append hwf
    apply halike.policiesFrom_eq hafter.2.2
  · obtain ⟨_, hafter⟩ := wellFormedFrom_append hwf
    apply halike.policiesFrom_eq hafter.2.2.2

def tag (name : String) (attr : Option (String × String)) : Tag where
  name := asBytes name
  attributes := (attr.map fun a => (asBytes a.1, asBytes a.2)).toList

theorem distinct_tag (name : String) (attr : Option (String × String)) :
  (tag name attr).Distinct
  := by
  cases attr <;> simp [Tag.Distinct, tag]

def inPolicy : List Event :=
  [.start (tag "policy" (some ("name", "P")))]

def aSwitch : Tag :=
  tag "boolean" (some ("valueName", "B"))

/-- The style of the tag of a switch among the elements of a policy makes no difference. -/
theorem style_ignored_boolean :
  parseAdmx (inPolicy ++ .empty aSwitch :: [.close (asBytes "policy")])
      = parseAdmx (inPolicy ++ .start aSwitch :: .close aSwitch.name :: [.close (asBytes "policy")])
    ∧ parseAdmx (inPolicy ++ .empty aSwitch :: [.close (asBytes "policy")])
      = .ok [⟨"P", "", "", .machine, none, "", none, [.boolean "B"]⟩]
  := by
  have hwf : WellFormed (inPolicy ++ .empty aSwitch :: [.close (asBytes "policy")]) := by
    simp [WellFormed, WellFormedFrom, inPolicy, aSwitch, distinct_tag]
    rfl
  have hs : inPolicy.foldlM State.event State.new = .ok { State.new with
      currentPolicy := some ⟨"P", "", "", .machine, none, "", none, []⟩ } := by
    decide +kernel
  refine ⟨(style_ignored_iff hs).2 ?_ _ (.inl hwf), by decide +kernel⟩
  have hk : kindOf aSwitch.name = .boolean := by decide
  rw [StyleIgnored, hk]
  rfl

/-- A policy whose tag is self-closing is dropped. -/
theorem self_closing_policy_dropped :
  WellFormed [.empty (tag "policy" (some ("name", "P")))]
    ∧ parseAdmx [.empty (tag "policy" (some ("name", "P")))] = .ok []
    ∧ parseAdmx [.start (tag "policy" (some ("name", "P"))), .close (asBytes "policy")]
      = .ok [⟨"P", "", "", .machine, none, "", none, []⟩]
  :=
  ⟨by simp [WellFormed, WellFormedFrom, distinct_tag], by decide +kernel, by decide +kernel⟩

end Admx
