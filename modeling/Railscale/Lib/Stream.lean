import Railscale.Lib.Framed

/-!
# Streams that give a script

What awaiting a stream again and again gives, with the ends in between: a stream need not be fused, it may give a
`None` and more items behind it. `Gives s os` says that awaiting gives `os`, and then the end for ever. It does not say
how often a poll of the stream is pending before that; `Gives.poll` is what a single poll does to it.
-/

namespace Railscale.AsyncStream

variable {S ι : Type} [AsyncStream S ι]

/-- The stream gives its end, however often it is awaited. -/
def Dry (s : S) : Prop := ∃ P : S → Prop, P s ∧ ∀ s, P s → ∃ s', Next s none s' ∧ P s'

/-- A stream that is over gives its end, and is over still. -/
lemma Dry.next {s : S} (dry : Dry s) : ∃ s', Next s none s' ∧ Dry s' := by
  obtain ⟨P, here, always⟩ := dry
  obtain ⟨s', next, there⟩ := always s here
  exact ⟨s', next, P, there, always⟩

/-- A stream that stays where it is. -/
lemma Dry.of_stays {s : S} (stays : pollNext s = (.ready none, s)) : Dry s := by
  refine ⟨(· = s), rfl, ?_⟩
  rintro _ rfl
  exact ⟨_, .ready stays, rfl⟩

/-- A stream that ends and is over then is over now. -/
lemma Dry.of_next {s s' : S} (next : Next s none s') (dry : Dry s') : Dry s := by
  obtain ⟨P, here, always⟩ := dry
  refine ⟨fun t => t = s ∨ P t, .inl rfl, ?_⟩
  rintro t (rfl | there)
  · exact ⟨s', next, .inr here⟩
  · obtain ⟨t', next, there⟩ := always t there
    exact ⟨t', next, .inr there⟩

/-- What awaiting the stream gives, up to where it is dry. -/
inductive Gives : S → List (Option ι) → Prop where
  | dry {s} :
    Dry s →
    Gives s []
  | next {s o s' os} :
    Next s o s' →
    Gives s' os →
    Gives s (o :: os)

/-- Awaiting such a stream once. -/
lemma Gives.exists_next {s : S} {os : List (Option ι)} (gives : Gives s os) :
    ∃ s', Next s (os.headD none) s' ∧ Gives s' os.tail := by
  cases gives with
  | dry dry =>
    obtain ⟨s', next, dry⟩ := dry.next
    exact ⟨s', next, .dry dry⟩
  | next next gives => exact ⟨_, next, gives⟩

/-- A poll that is not ready takes nothing. -/
lemma Gives.pending {s s' : S} {os : List (Option ι)} (gives : Gives s os) (poll : pollNext s = (.pending, s')) :
    Gives s' os := by
  cases gives with
  | dry dry =>
    obtain ⟨s1, next, dry⟩ := dry.next
    exact .dry (dry.of_next ((next_pending poll).1 next))
  | next next gives => exact .next ((next_pending poll).1 next) gives

/-- A poll that is ready takes the next item. -/
lemma Gives.ready {s s' : S} {o : Option ι} {os : List (Option ι)} (gives : Gives s os)
    (poll : pollNext s = (.ready o, s')) : o = os.headD none ∧ Gives s' os.tail := by
  obtain ⟨s1, next, gives⟩ := gives.exists_next
  obtain ⟨same, rfl⟩ := next.unique (.ready poll)
  exact ⟨same.symm, gives⟩

/-- A loop over the stream, and what it gives behind that. -/
lemma Gives.of_collect {ε β : Type} {T : Type} [AsyncStream T (Except ε β)] {s s' : T} {is : List β}
    {os : List (Option (Except ε β))} (coll : Collect s is none s') (gives : Gives s' os) :
    Gives s (is.map (fun i => some (.ok i)) ++ none :: os) := by
  induction is generalizing s with
  | nil =>
    cases coll with
    | none next => exact .next next gives
  | cons i is ih =>
    cases coll with
    | item next coll => exact .next next (ih coll)

/-- A stream that is dry behind a loop over it. -/
lemma Gives.of_collect_dry {ε β : Type} {T : Type} [AsyncStream T (Except ε β)] {s s' : T} {is : List β}
    (coll : Collect s is none s') (dry : Dry s') : Gives s (is.map fun i => some (.ok i)) := by
  induction is generalizing s with
  | nil =>
    cases coll with
    | none next => exact .dry (dry.of_next next)
  | cons i is ih =>
    cases coll with
    | item next coll => exact .next next (ih coll)

/-- A stream that is dry behind its items. -/
lemma Gives.of_yields {s s' : S} {is : List ι} (yields : Yields s is s') (dry : Dry s') :
    Gives s (is.map Option.some) := by
  induction yields with
  | none next => exact .dry (dry.of_next next)
  | item next _ ih => exact .next next (ih dry)

/-- A stream that may be missing: then it has no items. -/
instance : AsyncStream (Option S) ι where
  pollNext
    | none => (.ready none, none)
    | some s => ((pollNext s).1, some (pollNext s).2)

/-- A stream that is not there gives nothing. -/
lemma gives_none : Gives (none : Option S) ([] : List (Option ι)) := .dry (.of_stays rfl)

/-- A stream that is there gives what it gives. -/
lemma Next.some {s s' : S} {o : Option ι} (next : Next s o s') : Next (some s) o (some s') := by
  induction next with
  | @ready s o s' poll =>
    exact .ready (show (((pollNext s).1, Option.some (pollNext s).2) : _ × Option S) = _ by rw [poll])
  | @pending s s1 o s' poll _ ih =>
    exact .pending (show (((pollNext s).1, Option.some (pollNext s).2) : _ × Option S) = _ by rw [poll]) ih

/-- So it does in the long run. -/
lemma Gives.some {s : S} {os : List (Option ι)} (gives : Gives s os) : Gives (some s) os := by
  induction gives with
  | dry dry =>
    obtain ⟨P, here, always⟩ := dry
    refine .dry ⟨fun t => ∃ s, t = .some s ∧ P s, ⟨_, rfl, here⟩, ?_⟩
    rintro _ ⟨s, rfl, here⟩
    obtain ⟨s', next, there⟩ := always s here
    exact ⟨.some s', next.some, s', rfl, there⟩
  | next next _ ih => exact .next next.some ih

end Railscale.AsyncStream
