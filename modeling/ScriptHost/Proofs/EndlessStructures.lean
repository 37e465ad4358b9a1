import ScriptHost.Proofs.EndlessTexts

/-!
# Structures without an end

Structures lie inside each other through their public fields, and one that lies inside itself has a
proxy without an end.  A host value arrives at the scripts unless it meets such a structure or
another check that stops it.  Where the crossing has no end, it has none at any depth, and the text
of the value has none either.
-/

namespace ScriptHost

/-- A structure lies in a public field of another one. -/
def Objects.Nests (objects : Objects) (o p : ObjectId) : Prop :=
  (objects.get o).hold ≠ .exclusive ∧
    ∃ entry ∈ (objects.get o).publicFields, entry.2.Has (.struct p)

/-- Why a check that is no structure stops a crossing. -/
inductive Objects.Bars (objects : Objects) : Check → Stop CrossingError → Prop where
  | foreign (kind : String) : Objects.Bars objects (.foreign kind) (.error (.unsupported kind))
  | key {k : HostValue} {stop : Stop CrossingError} (stops : objects.keyStop k = some stop) :
      Objects.Bars objects (.key k) stop

/-- Why a structure stops a crossing. -/
inductive Objects.Blocks (objects : Objects) : ObjectId → Stop CrossingError → Prop where
  | held {o : ObjectId} (held : (objects.get o).hold = .exclusive) :
      Objects.Blocks objects o (.error (.host (.busy (objects.get o).shape.name)))
  | field {o : ObjectId} {entry : String × Datum} {c : Check} {stop : Stop CrossingError}
      (free : (objects.get o).hold ≠ .exclusive) (shown : entry ∈ (objects.get o).publicFields)
      (has : entry.2.Has c) (bars : objects.Bars c stop) : Objects.Blocks objects o stop
  | nested {o p : ObjectId} {stop : Stop CrossingError} (nests : objects.Nests o p)
      (blocks : Objects.Blocks objects p stop) : Objects.Blocks objects o stop
  | circular {o : ObjectId} (circular : Relation.TransGen objects.Nests o o) :
      Objects.Blocks objects o .endless

/-- Why a host value does not cross. -/
def HostValue.Refused (v : HostValue) (objects : Objects) (stop : Stop CrossingError) : Prop :=
  ∃ c, v.Has c ∧ (objects.Bars c stop ∨ ∃ o, c = .struct o ∧ objects.Blocks o stop)

/-- What is checked leads to an object at once. -/
inductive Check.Mentions : Check → ObjectId → Prop where
  | key {k : HostValue} {o : ObjectId} (mentions : k.Mentions o) : Check.Mentions (.key k) o
  | struct (o : ObjectId) : Check.Mentions (.struct o) o

theorem HostValue.Has.mentions {v : HostValue} {c : Check} {o : ObjectId} (has : v.Has c)
    (mentions : c.Mentions o) : v.Mentions o := by
  induction has with
  | item inside _ ih => exact .item inside (ih mentions)
  | key inside =>
    cases mentions with
    | key mentions => exact .key inside mentions
  | pair inside _ ih => exact .pair inside (ih mentions)
  | struct =>
    cases mentions
    exact .struct _
  | foreign => cases mentions

theorem Datum.Has.mentions {d : Datum} {c : Check} {o : ObjectId} (has : d.Has c)
    (mentions : c.Mentions o) : d.Mentions o := by
  induction has with
  | any has => exact .any (has.mentions mentions)
  | record inside _ ih => exact .record inside (ih mentions)
  | present _ ih => exact .present (ih mentions)
  | item inside _ ih => exact .item inside (ih mentions)
  | entry inside _ ih => exact .entry inside (ih mentions)

namespace Objects

open ObjectId Relation

section

variable {objects : Objects} {o p : ObjectId} {stop : Stop CrossingError} {depth : Nat}

theorem Nests.displays (nests : objects.Nests o p) : objects.Displays o p := by
  obtain ⟨free, entry, shown, has⟩ := nests
  exact ⟨free, entry, shown, has.mentions (.struct p)⟩

theorem judge_eq_some {structs : ObjectId → Option (Stop CrossingError)} {c : Check} :
    objects.judge structs c = some stop ↔
      objects.Bars c stop ∨ ∃ o, c = .struct o ∧ structs o = some stop := by
  cases c with
  | foreign kind =>
    constructor
    · rintro ⟨⟩
      exact .inl (.foreign kind)
    · rintro (bars | ⟨o, ⟨⟩, -⟩)
      cases bars
      rfl
  | key k =>
    constructor
    · exact fun stops => .inl (.key stops)
    · rintro (bars | ⟨o, ⟨⟩, -⟩)
      cases bars with
      | key stops => exact stops
  | struct o =>
    constructor
    · exact fun stops => .inr ⟨o, rfl, stops⟩
    · rintro (bars | ⟨_, ⟨⟩, stops⟩)
      · cases bars
      · exact stops

/-! ## Reasons of any depth -/

/-- What stops a structure at a depth is a reason at every depth, or the depth itself. -/
theorem blocks_or_walks (stops : objects.stopAt depth o = some stop) :
    objects.Blocks o stop ∨ stop = .endless ∧ Walks objects.Nests depth o := by
  induction depth generalizing o with
  | zero => exact .inr ⟨(Option.some.inj stops).symm, trivial⟩
  | succ depth ih =>
    rw [stopAt, objectStop] at stops
    by_cases held : (objects.get o).hold = .exclusive
    · rw [if_pos held] at stops
      cases stops
      exact .inl (.held held)
    · rw [if_neg held] at stops
      obtain ⟨c, inside, stops⟩ := List.exists_of_findSome?_eq_some stops
      obtain ⟨entry, shown, has⟩ := mem_shownChecks.1 inside
      obtain bars | ⟨p, rfl, stops⟩ := judge_eq_some.1 stops
      · exact .inl (.field held shown has bars)
      · have nests : objects.Nests o p := ⟨held, entry, shown, has⟩
        obtain blocks | ⟨rfl, walks⟩ := ih stops
        · exact .inl (.nested nests blocks)
        · exact .inr ⟨rfl, p, nests, walks⟩

/-- Checks with one that stops at a depth stop there. -/
theorem stopAt_succ_ne_none {c : Check} (free : (objects.get o).hold ≠ .exclusive)
    {entry : String × Datum} (shown : entry ∈ (objects.get o).publicFields) (has : entry.2.Has c)
    (stops : objects.judge (objects.stopAt depth) c ≠ none) :
    objects.stopAt (depth + 1) o ≠ none := by
  rw [stopAt, objectStop, if_neg free]
  intro none
  exact stops (List.findSome?_eq_none_iff.1 none c (mem_shownChecks.2 ⟨entry, shown, has⟩))

theorem stopAt_ne_none_of_walks (walks : Walks objects.Nests depth o) :
    objects.stopAt depth o ≠ none := by
  induction depth generalizing o with
  | zero => exact Option.some_ne_none _
  | succ depth ih =>
    obtain ⟨p, ⟨free, entry, shown, has⟩, rest⟩ := walks
    exact stopAt_succ_ne_none free shown has (ih rest)

/-- A structure that has a reason not to cross is stopped at every depth. -/
theorem Blocks.stopAt_ne_none (blocks : objects.Blocks o stop) (depth : Nat) :
    objects.stopAt depth o ≠ none := by
  induction blocks generalizing depth with
  | held held =>
    cases depth with
    | zero => exact Option.some_ne_none _
    | succ depth =>
      rw [stopAt, objectStop, if_pos held]
      exact Option.some_ne_none _
  | field free shown has bars =>
    cases depth with
    | zero => exact Option.some_ne_none _
    | succ depth =>
      refine stopAt_succ_ne_none free shown has ?_
      rw [judge_eq_some.2 (.inl bars)]
      exact Option.some_ne_none _
  | nested nests _ ih =>
    cases depth with
    | zero => exact Option.some_ne_none _
    | succ depth =>
      obtain ⟨free, entry, shown, has⟩ := nests
      exact stopAt_succ_ne_none free shown has (ih depth)
  | circular circular => exact stopAt_ne_none_of_walks (Loops.walks ⟨_, .refl, circular⟩ depth)

theorem blocks_of_loops (loops : Loops objects.Nests o) : objects.Blocks o .endless := by
  obtain ⟨p, way, back⟩ := loops
  induction way using ReflTransGen.head_induction_on with
  | refl => exact .circular back
  | head nests _ ih => exact .nested nests ih

/-! ## Ends of any depth -/

/-- What passes at a depth passes at every other one, unless that one is too small for it. -/
theorem judge_of_passes {c : Check} (passes : objects.judge (objects.stopAt depth) c = none)
    (other : Nat) :
    objects.judge (objects.stopAt other) c = none ∨
      objects.judge (objects.stopAt other) c = some .endless := by
  cases c with
  | foreign | key => exact .inl passes
  | struct p =>
    have here : objects.stopAt depth p = none := passes
    rcases Nat.le_total depth other with deeper | less
    · have ends : objects.stopAt depth p ≠ some .endless := by simp [here]
      exact .inl ((stopAt_eq_of_le deeper ends).trans here)
    · by_cases endless : objects.stopAt other p = some .endless
      · exact .inr endless
      · exact .inl ((stopAt_eq_of_le less endless).symm.trans here)

/-- Where what comes before passes or has no end, checks with one that has no end have none. -/
theorem firstStop_endless {structs : ObjectId → Option (Stop CrossingError)} {c : Check}
    {before after : List Check}
    (near : ∀ x ∈ before, objects.judge structs x = none ∨ objects.judge structs x = some .endless)
    (here : objects.judge structs c = some .endless) :
    objects.firstStop structs (before ++ c :: after) = some .endless := by
  induction before with
  | nil => rw [List.nil_append, firstStop_cons, here, Option.some_or]
  | cons x before ih =>
    obtain ⟨first, rest⟩ := List.forall_mem_cons.1 near
    rw [List.cons_append, firstStop_cons]
    rcases first with passes | endless
    · rw [passes, Option.none_or, ih rest]
    · rw [endless, Option.some_or]

/--
Checks without an end at a depth have none at any depth, or else one of their structures has none
there, on which alone it depends whether they end at another depth.
-/
theorem endless_of_firstStop {checks : List Check}
    (endless : objects.firstStop (objects.stopAt depth) checks = some .endless) :
    (∀ other, objects.firstStop (objects.stopAt other) checks = some .endless) ∨
    ∃ p, .struct p ∈ checks ∧ objects.stopAt depth p = some .endless ∧
      ∀ other, objects.stopAt other p = some .endless →
        objects.firstStop (objects.stopAt other) checks = some .endless := by
  obtain ⟨before, c, after, rfl, here, passed⟩ := List.findSome?_eq_some_iff.1 endless
  have later (other) (again : objects.judge (objects.stopAt other) c = some .endless) :
      objects.firstStop (objects.stopAt other) (before ++ c :: after) = some .endless :=
    firstStop_endless (fun x inside => judge_of_passes (passed x inside) other) again
  cases c with
  | foreign kind => cases here
  | key k => exact .inl fun other => later other here
  | struct p => exact .inr ⟨p, List.mem_append_right _ List.mem_cons_self, here, later⟩

/-- A structure in another one, on which it depends whether that one ends. -/
def Leads (objects : Objects) (o p : ObjectId) : Prop :=
  objects.Nests o p ∧ ∀ depth, objects.stopAt depth p = some .endless →
    objects.stopAt (depth + 1) o = some .endless

theorem endless_or_leads (endless : objects.stopAt (depth + 1) o = some .endless) :
    (∀ depth, objects.stopAt depth o = some .endless) ∨
    ∃ p, objects.Leads o p ∧ objects.stopAt depth p = some .endless := by
  rw [stopAt, objectStop] at endless
  by_cases held : (objects.get o).hold = .exclusive
  · rw [if_pos held] at endless
    cases endless
  · rw [if_neg held] at endless
    have step (depth) (again : objects.firstStop (objects.stopAt depth) (objects.shownChecks o) =
        some .endless) : objects.stopAt (depth + 1) o = some .endless := by
      rw [stopAt, objectStop, if_neg held, again]
    obtain always | ⟨p, inside, here, later⟩ := endless_of_firstStop endless
    · refine .inl fun depth => ?_
      cases depth with
      | zero => rfl
      | succ depth => exact step depth (always depth)
    · obtain ⟨entry, shown, has⟩ := mem_shownChecks.1 inside
      exact .inr ⟨p, ⟨⟨held, entry, shown, has⟩, fun depth again => step depth (later depth again)⟩,
        here⟩

theorem Leads.endless (leads : objects.Leads o p)
    (always : ∀ depth, objects.stopAt depth p = some .endless) (depth : Nat) :
    objects.stopAt depth o = some .endless := by
  cases depth with
  | zero => rfl
  | succ depth => exact leads.2 depth (always depth)

theorem endless_or_walks (endless : objects.stopAt depth o = some .endless) :
    (∀ depth, objects.stopAt depth o = some .endless) ∨ Walks objects.Leads depth o := by
  induction depth generalizing o with
  | zero => exact .inr trivial
  | succ depth ih =>
    obtain always | ⟨p, leads, here⟩ := endless_or_leads endless
    · exact .inl always
    · obtain always | walks := ih here
      · exact .inl (leads.endless always)
      · exact .inr ⟨p, leads, walks⟩

theorem endless_of_loops (loops : Loops objects.Leads o) (depth : Nat) :
    objects.stopAt depth o = some .endless := by
  induction depth generalizing o with
  | zero => rfl
  | succ depth ih =>
    obtain ⟨p, leads, loops⟩ := loops.next
    exact leads.2 depth (ih loops)

/-- As deep as the heap asks for, an object that has no end has none at any depth. -/
theorem stopAt_endless (sealed : objects.Sealed) (inside : o.index < objects.size)
    (endless : objects.stopAt objects.size o = some .endless) (depth : Nat) :
    objects.stopAt depth o = some .endless := by
  obtain always | walks := endless_or_walks endless
  · exact always depth
  · exact endless_of_loops (walks.loops (fun _ p leads => sealed _ p leads.1.displays) inside) depth

theorem stopAt_eq_of_size_le (sealed : objects.Sealed) (inside : o.index < objects.size)
    (deep : objects.size ≤ depth) : objects.stopAt depth o = objects.stopAt objects.size o := by
  by_cases endless : objects.stopAt objects.size o = some .endless
  · rw [stopAt_endless sealed inside endless, endless]
  · exact stopAt_eq_of_le deep endless

/-- As deep as the heap asks for, the depth is no reason of its own. -/
theorem blocks_of_stopAt (sealed : objects.Sealed) (inside : o.index < objects.size)
    (stops : objects.stopAt objects.size o = some stop) : objects.Blocks o stop := by
  obtain blocks | ⟨rfl, walks⟩ := blocks_or_walks stops
  · exact blocks
  · exact blocks_of_loops (walks.loops (fun _ p nests => sealed _ p nests.displays) inside)

/-! ## Crossings and texts -/

/-- On a sealed heap, checks that lead to its objects only are ready. -/
theorem Sealed.ready (sealed : objects.Sealed) {checks : List Check}
    (within : ∀ c ∈ checks, ∀ o, c.Mentions o → o.index < objects.size) :
    objects.Ready (·.index < objects.size) checks where
  keys _ isCheck _ more := more.text_eq sealed fun o mentions => within _ isCheck o (.key mentions)
  structs o isCheck := within _ isCheck o (.struct o)

theorem Bars.endless_or_error {c : Check} (bars : objects.Bars c stop) :
    stop = .endless ∨ ∃ e, stop = .error e := by
  cases bars with
  | foreign => exact .inr ⟨_, rfl⟩
  | key stops => exact (keyStop_eq_some stops).symm.imp_left And.left

/-- On the way to the scripts there is nothing at which the host panics. -/
theorem Blocks.endless_or_error (blocks : objects.Blocks o stop) :
    stop = .endless ∨ ∃ e, stop = .error e := by
  induction blocks with
  | held => exact .inr ⟨_, rfl⟩
  | field _ _ _ bars => exact bars.endless_or_error
  | nested _ _ ih => exact ih
  | circular => exact .inl rfl

/-- A check without an end by itself is a key that leads to a circle. -/
theorem Bars.loops (sealed : objects.Sealed) {c : Check}
    (within : ∀ o, c.Mentions o → o.index < objects.size) (bars : objects.Bars c .endless) :
    ∃ o, c.Mentions o ∧ Loops objects.Displays o := by
  cases bars with
  | key stops =>
    obtain ⟨e, same⟩ | ⟨-, endless⟩ := keyStop_eq_some stops
    · cases same
    · obtain ⟨o, mentions, loops⟩ :=
        (text_eq_none sealed fun o mentions => within o (.key mentions)).1 endless
      exact ⟨o, .key mentions, loops⟩

/-- A structure whose crossing has no end shows a circle. -/
theorem Blocks.loops (sealed : objects.Sealed) (blocks : objects.Blocks o .endless) :
    Loops objects.Displays o := by
  generalize same : (Stop.endless : Stop CrossingError) = stop at blocks
  induction blocks with
  | held => cases same
  | @field o entry c _ free shown has bars =>
    have displays (p) (mentions : c.Mentions p) : objects.Displays o p :=
      ⟨free, entry, shown, has.mentions mentions⟩
    subst same
    obtain ⟨p, mentions, loops⟩ :=
      bars.loops sealed fun p mentions => sealed o p (displays p mentions)
    exact .head (displays p mentions) loops
  | nested nests _ ih => exact .head nests.displays (ih same)
  | circular circular => exact ⟨_, .refl, TransGen.mono (fun _ _ => Nests.displays) _ _ circular⟩

end

end Objects

namespace Crossing

open MachineM ObjectId Objects

variable {base : Objects}

theorem ready_of_sealed (sealed : base.Sealed) (o : ObjectId)
    (free : (base.get o).hold ≠ .exclusive) :
    base.Ready (·.index < base.size) (base.shownChecks o) := by
  refine sealed.ready fun c isCheck p mentions => ?_
  obtain ⟨entry, shown, has⟩ := mem_shownChecks.1 isCheck
  exact sealed o p ⟨free, entry, shown, has.mentions mentions⟩

section

variable {s : Machine} {v : HostValue} {stop : Stop CrossingError}

theorem refused_of_firstStop (sealed : s.objects.Sealed) (within : v.Over s.objects)
    (stops : s.objects.firstStop (s.objects.stopAt s.objects.size) v.checks = some stop) :
    v.Refused s.objects stop := by
  obtain ⟨c, isCheck, stops⟩ := List.exists_of_findSome?_eq_some stops
  have has := HostValue.mem_checks.1 isCheck
  obtain bars | ⟨o, rfl, stops⟩ := judge_eq_some.1 stops
  · exact ⟨c, has, .inl bars⟩
  · have inside := within o (has.mentions (.struct o))
    exact ⟨_, has, .inr ⟨o, rfl, blocks_of_stopAt sealed inside stops⟩⟩

/-- A value that has a reason not to cross is stopped. -/
theorem firstStop_ne_none_of_refused (refused : v.Refused s.objects stop) (depth : Nat) :
    s.objects.firstStop (s.objects.stopAt depth) v.checks ≠ none := by
  obtain ⟨c, has, reason⟩ := refused
  intro none
  have passes := List.findSome?_eq_none_iff.1 none c has.mem
  obtain bars | ⟨o, rfl, blocks⟩ := reason
  · cases passes.symm.trans (judge_eq_some.2 (.inl bars))
  · exact blocks.stopAt_ne_none depth passes

/-- A value whose crossing has no end, as deep as the heap asks for, has none at any depth. -/
theorem firstStop_endless_always (sealed : s.objects.Sealed) (within : v.Over s.objects)
    (endless : s.objects.firstStop (s.objects.stopAt s.objects.size) v.checks = some .endless)
    (depth : Nat) : s.objects.firstStop (s.objects.stopAt depth) v.checks = some .endless := by
  obtain always | ⟨p, isCheck, here, later⟩ := endless_of_firstStop endless
  · exact always depth
  · have inside := within p ((HostValue.mem_checks.1 isCheck).mentions (.struct p))
    exact later depth (stopAt_endless sealed inside here depth)

/-- A value whose crossing has no end has no text either. -/
theorem text_of_refused_endless (sealed : s.objects.Sealed) (within : v.Over s.objects)
    (refused : v.Refused s.objects .endless) : s.objects.text v = none := by
  refine (text_eq_none sealed within).2 ?_
  obtain ⟨c, has, bars | ⟨o, rfl, blocks⟩⟩ := refused
  · obtain ⟨o, mentions, loops⟩ :=
      bars.loops sealed fun o mentions => within o (has.mentions mentions)
    exact ⟨o, has.mentions mentions, loops⟩
  · exact ⟨o, has.mentions (.struct o), blocks.loops sealed⟩

theorem ready_of_over (sealed : s.objects.Sealed) (within : v.Over s.objects) :
    s.objects.Ready (·.index < s.objects.size) v.checks :=
  sealed.ready fun _ isCheck o mentions =>
    within o ((HostValue.mem_checks.1 isCheck).mentions mentions)

/-- At a depth, a value stops at the first of its checks that stops there. -/
theorem value_crosses_at (sealed : s.objects.Sealed) (within : v.Over s.objects) (depth : Nat) :
    Crosses s.objects (s.objects.firstStop (s.objects.stopAt depth) v.checks)
      (value (proxyOfStruct depth) v) :=
  value_crosses (proxyOfStruct_crosses (fun _ => id) (fun o _ => ready_of_sealed sealed o) depth) v
    (ready_of_over sealed within)

theorem toScript_crosses (sealed : s.objects.Sealed) (within : v.Over s.objects) :
    Crosses s.objects (s.objects.firstStop (s.objects.stopAt s.objects.size) v.checks)
      (toScript v) :=
  value_crosses (structure?_crosses (fun _ => id) (fun o _ => ready_of_sealed sealed o)
    fun _ inside _ => stopAt_eq_of_size_le sealed inside) v (ready_of_over sealed within)

end

/--
What displaying a host value and bringing it to the scripts end with, on a heap whose objects may
lead anywhere.  The text ends exactly if no object that is shown leads back to itself.  The value
arrives exactly if nothing refuses it, and otherwise what stops it is one of the reasons, an error
or that there is no end.  Then it has none however deep the crossing goes, and the value has no text
either.
-/
theorem text_toScript_outcome (s : Machine) (v : HostValue) (sealed : s.objects.Sealed)
    (within : v.Over s.objects) :
    (s.objects.text v = none ↔ ∃ o, v.Mentions o ∧ Loops s.objects.Displays o) ∧
    (s.objects.text v = none → ∀ depth, Render.value (Render.object s.objects depth) v = none) ∧
    ((∃ w t, (toScript v).runOn s = (.ok w, t)) ↔ ∀ stop, ¬ v.Refused s.objects stop) ∧
    (∀ stop t, (toScript v).runOn s = (.error stop, t) →
      v.Refused s.objects stop ∧ (stop = .endless ∨ ∃ e, stop = .error e)) ∧
    (∀ t, (toScript v).runOn s = (.error .endless, t) →
      s.objects.text v = none ∧
        ∀ depth, ∃ u, (value (proxyOfStruct depth) v).runOn s = (.error .endless, u)) := by
  have crosses := toScript_crosses sealed within s (.refl _)
  refine ⟨text_eq_none sealed within, value_eq_none_of_text sealed within, ?_⟩
  cases found : s.objects.firstStop (s.objects.stopAt s.objects.size) v.checks with
  | none =>
    rw [found] at crosses
    obtain ⟨w, t, run, -⟩ := crosses
    refine ⟨⟨fun _ stop refused => ?_, fun _ => ⟨w, t, run⟩⟩, fun stop u stopped => ?_,
      fun u stopped => ?_⟩
    · exact firstStop_ne_none_of_refused refused _ found
    · cases run.symm.trans stopped
    · cases run.symm.trans stopped
  | some stop =>
    rw [found] at crosses
    obtain ⟨t, run⟩ := crosses
    have refused := refused_of_firstStop sealed within found
    refine ⟨⟨?_, fun none => absurd refused (none stop)⟩, fun other u stopped => ?_,
      fun u stopped => ?_⟩
    · rintro ⟨w, u, arrives⟩
      cases run.symm.trans arrives
    · cases run.symm.trans stopped
      refine ⟨refused, ?_⟩
      obtain ⟨c, -, bars | ⟨o, -, blocks⟩⟩ := refused
      · exact bars.endless_or_error
      · exact blocks.endless_or_error
    · cases run.symm.trans stopped
      refine ⟨text_of_refused_endless sealed within refused, fun depth => ?_⟩
      have again := value_crosses_at sealed within depth s (.refl _)
      rw [firstStop_endless_always sealed within found depth] at again
      exact again

/-- A machine with one object, which has a value in its public field. -/
def selfShown (v : HostValue) : Machine where
  objects.instances := #[⟨⟨"Loop", "", [.visible "self" .ptr .any]⟩, [.any v], .free⟩]

theorem publicFields_selfShown (v : HostValue) (o : ObjectId) :
    ∀ entry ∈ ((selfShown v).objects.get o).publicFields, entry = ("self", .any v) := by
  intro entry shown
  obtain ⟨_ | index⟩ := o
  · exact List.mem_singleton.1 shown
  · cases shown

theorem free_selfShown (v : HostValue) (o : ObjectId) :
    ((selfShown v).objects.get o).hold ≠ .exclusive := by
  obtain ⟨_ | index⟩ := o <;> exact nofun

theorem has_selfShown {v : HostValue} {c : Check} {o : ObjectId} {entry : String × Datum}
    (shown : entry ∈ ((selfShown v).objects.get o).publicFields) (has : entry.2.Has c) :
    v.Has c := by
  rw [publicFields_selfShown v o entry shown] at has
  cases has with
  | any has => exact has

theorem sealed_selfShown {v : HostValue} (only : ∀ p, v.Mentions p → p = ⟨0⟩) :
    (selfShown v).objects.Sealed := by
  rintro o p ⟨-, entry, shown, mentions⟩
  rw [publicFields_selfShown v o entry shown] at mentions
  cases mentions with
  | any mentions =>
    rw [only p mentions]
    exact Nat.zero_lt_one

/--
An object that points to itself crosses but has no text; one that lies inside itself has neither a
text nor a proxy, at any depth.
-/
theorem text_toScript_outcome_selfShown :
    ((selfShown (.ptr (some ⟨0⟩))).objects.text (.struct ⟨0⟩) = none ∧
      ∃ w t, (toScript (.struct ⟨0⟩)).runOn (selfShown (.ptr (some ⟨0⟩))) = (.ok w, t)) ∧
    (selfShown (.struct ⟨0⟩)).objects.text (.struct ⟨0⟩) = none ∧
      ∀ depth, ∃ t, (value (proxyOfStruct depth) (.struct ⟨0⟩)).runOn (selfShown (.struct ⟨0⟩)) =
        (.error .endless, t) := by
  have within (v : HostValue) : (HostValue.struct ⟨0⟩).Over (selfShown v).objects := by
    rintro _ ⟨⟩
    exact Nat.zero_lt_one
  constructor
  · obtain ⟨shown, -, arrives, -⟩ :=
      text_toScript_outcome (selfShown (.ptr (some ⟨0⟩))) (.struct ⟨0⟩)
        (sealed_selfShown (by rintro _ ⟨⟩; rfl)) (within _)
    have loops : Loops (selfShown (.ptr (some ⟨0⟩))).objects.Displays ⟨0⟩ :=
      ⟨⟨0⟩, .refl, .single ⟨nofun, _, List.mem_singleton.2 rfl, .any (.ptr _)⟩⟩
    refine ⟨shown.2 ⟨⟨0⟩, .struct _, loops⟩, arrives.2 ?_⟩
    have nests (o p) : ¬ (selfShown (.ptr (some ⟨0⟩))).objects.Nests o p := by
      rintro ⟨-, entry, shown, has⟩
      cases has_selfShown shown has
    rintro stop ⟨_, ⟨⟩, ⟨⟨⟩⟩ | ⟨o, -, blocks⟩⟩
    cases blocks with
    | held held => exact free_selfShown _ o held
    | field _ shown has _ => cases has_selfShown shown has
    | nested inside _ => exact nests _ _ inside
    | circular circular =>
      obtain ⟨p, inside, -⟩ := Relation.TransGen.head'_iff.1 circular
      exact nests o p inside
  · obtain ⟨-, -, arrives, stopped, endless⟩ :=
      text_toScript_outcome (selfShown (.struct ⟨0⟩)) (.struct ⟨0⟩)
        (sealed_selfShown (by rintro _ ⟨⟩; rfl)) (within _)
    have only (o stop) (blocks : (selfShown (.struct ⟨0⟩)).objects.Blocks o stop) :
        stop = .endless := by
      induction blocks with
      | held held => exact absurd held (free_selfShown _ _)
      | field _ shown has bars =>
        cases has_selfShown shown has
        cases bars
      | nested _ _ ih => exact ih
      | circular => rfl
    have inside : (selfShown (.struct ⟨0⟩)).objects.Nests ⟨0⟩ ⟨0⟩ :=
      ⟨nofun, _, List.mem_singleton.2 rfl, .any (.struct _)⟩
    rcases run : (toScript (.struct ⟨0⟩)).runOn (selfShown (.struct ⟨0⟩)) with ⟨stop | w, t⟩
    · obtain ⟨⟨_, ⟨⟩, ⟨⟨⟩⟩ | ⟨o, -, blocks⟩⟩, -⟩ := stopped stop t run
      rw [only o stop blocks] at run
      exact endless t run
    · exact absurd ⟨_, .struct _, .inr ⟨⟨0⟩, rfl, .circular (.single inside)⟩⟩
        (arrives.1 ⟨w, t, run⟩ .endless)

end Crossing

end ScriptHost
