import PortablePdb.Proofs.Compressed.CutOff
import PortablePdb.Proofs.SequencePoint.Language

/-!
# Blobs that are cut off

A blob with more bytes behind it is read as far as it went before. The integers that were read
stay the same, and a byte with which no integer begins stays such a byte, so only an integer that
was cut off can go on differently (`Continues`). The decoder takes the integers one by one and
cannot know what follows. On a blob and on a longer one it is therefore in the same state when the
integers of the shorter one are used up, with the same points behind it, or it has failed on the
way in the same manner (`Foreruns`).

* `decode_foreruns`: what the front of a blob gives, beside what the blob gives.
* `decode_cut`: a cut never turns a good blob into a malformed one, and nothing that is added
  behind a malformed one mends it.
-/

namespace PortablePdb

namespace SequencePoint

open Compressed (Continues)

/-- How what the front of a blob gives goes with what the whole blob gives. -/
inductive Foreruns (front whole : Except DebugError (List SequencePoint)) : Prop
  | failed {e : DebugError} (hfront : front = .error e) (hwhole : whole = .error e)
  | short (hfront : front = .error .outOfBounds)
  | points {points : List SequencePoint} (hfront : front = .ok points)
      (hwhole : ∀ all, whole = .ok all → points <+: all)

namespace State

theorem run_append_of_error {state : State} {first : List Compressed} {e : DebugError}
    (h : state.advance first = .error e) (stop : Option DebugError) (second : List Compressed) :
    state.run stop (first ++ second) = .error e := by
  rw [run_append, h]
  rfl

theorem run_append_of_ok {state next : State} {first : List Compressed}
    {points : List SequencePoint} (h : state.advance first = .ok (next, points))
    (stop : Option DebugError) (second : List Compressed) :
    state.run stop (first ++ second) = (next.run stop second).map (points ++ ·) := by
  rw [run_append, h]
  show (next.run stop second >>= fun more => pure (points ++ more)) = _
  cases next.run stop second with
  | error e => rfl
  | ok more => rfl

/-- Where a blob ends or is cut off inside an integer, no point is missing or some byte is. -/
theorem run_nil_cases (next : State) {stop : Option DebugError}
    (h : stop = none ∨ stop = some .outOfBounds) :
    next.run stop [] = .ok [] ∨ next.run stop [] = .error .outOfBounds := by
  rcases h with rfl | rfl
  · simp only [run]
    split
    · exact Or.inl rfl
    · exact Or.inr rfl
  · exact Or.inr rfl

/-- The two runs are in the same state where the front ends. -/
theorem run_foreruns (state : State) {front whole : List Compressed × Option DebugError}
    (h : Continues front whole) :
    Foreruns (state.run front.2 front.1) (state.run whole.2 whole.1) := by
  cases h with
  | stopped hstop hsame =>
    subst hsame
    cases hrun : state.run whole.2 whole.1 with
    | error e => exact .failed rfl rfl
    | ok points =>
      rw [hstop] at hrun
      exact absurd hrun run_stopped_ne_ok
  | goesOn hstop hfront =>
    obtain ⟨integers, stop⟩ := front
    obtain ⟨more, hmore⟩ := hfront
    simp only at hstop hmore
    rw [← hmore]
    have hself := List.append_nil integers
    cases hadvance : state.advance integers with
    | error e =>
      refine .failed ?_ (run_append_of_error hadvance whole.2 more)
      rw [← hself]
      exact run_append_of_error hadvance stop []
    | ok reached =>
      obtain ⟨next, points⟩ := reached
      have hrun := run_append_of_ok hadvance stop []
      rw [hself] at hrun
      rcases run_nil_cases next hstop with hend | hend
      · have hpoints : state.run stop integers = .ok points := by
          rw [hrun, hend]
          exact congrArg Except.ok (List.append_nil points)
        refine .points hpoints ?_
        intro all hall
        rw [run_append_of_ok hadvance] at hall
        obtain ⟨rest, -, rfl⟩ := map_eq_ok_iff.1 hall
        exact List.prefix_append points rest
      · rw [hend] at hrun
        exact .short hrun

end State

theorem decode_foreruns (document : Option DocumentHandle) (blob more : Bytes) :
    Foreruns (decode document blob) (decode document (blob ++ more)) := by
  by_cases hblob : blob = []
  · subst hblob
    exact .points (decode_nil document) fun all _ => List.nil_prefix
  · have hwhole : blob ++ more ≠ [] := fun h => hblob (List.append_eq_nil_iff.1 h).1
    rw [decode_of_ne_nil hblob, decode_of_ne_nil hwhole]
    exact State.run_foreruns _ (Compressed.scan_continues blob more)

/-- **Cutting and going on.** A good blob that is cut anywhere is incomplete or gives its first
points; it is never malformed. A malformed blob stays malformed for the same reason, whatever
follows it. -/
theorem decode_cut (document : Option DocumentHandle) (blob more : Bytes) :
    (∀ points, decode document (blob ++ more) = .ok points →
      decode document blob = .error .outOfBounds ∨
        ∃ front, decode document blob = .ok front ∧ front <+: points) ∧
    ∀ reason, decode document blob = .error (.malformed reason) →
      decode document (blob ++ more) = .error (.malformed reason) := by
  constructor
  · intro points hpoints
    cases decode_foreruns document blob more with
    | failed _ hwhole =>
      rw [hpoints] at hwhole
      cases hwhole
    | short hfront => exact Or.inl hfront
    | points hfront hwhole => exact Or.inr ⟨_, hfront, hwhole points hpoints⟩
  · intro reason hreason
    cases decode_foreruns document blob more with
    | failed hfront hwhole =>
      rw [hreason] at hfront
      cases hfront
      exact hwhole
    | short hfront =>
      rw [hreason] at hfront
      cases hfront
    | points hfront _ =>
      rw [hreason] at hfront
      cases hfront

/-- A cut between a document change and the point behind it, and a row id that names no document. -/
theorem decode_cut_twice :
    let blob : Bytes := [0, 1, 4, 0, 0, 0, 3]
    let point : SequencePoint := .hidden 4 .first
    let next : SequencePoint := .hidden 6 ⟨3, by decide⟩
    decode none (blob ++ [2, 0, 0]) = .ok [point, next] ∧
      (decode none blob = .error .outOfBounds ∨
        ∃ front, decode none blob = .ok front ∧ front <+: [point, next]) ∧
      decode none (blob ++ [0, 0]) = .error (.malformed (.documentRow 0)) ∧
      decode none (blob ++ [0, 0] ++ [0xFF]) = .error (.malformed (.documentRow 0)) := by
  intro blob point next
  have hpoints : decode none (blob ++ [2, 0, 0]) = .ok [point, next] := by decide +kernel
  have hrow : decode none (blob ++ [0, 0]) = .error (.malformed (.documentRow 0)) := by
    decide +kernel
  exact ⟨hpoints, (decode_cut none blob [2, 0, 0]).1 _ hpoints, hrow,
    (decode_cut none (blob ++ [0, 0]) [0xFF]).2 _ hrow⟩

end SequencePoint

end PortablePdb
