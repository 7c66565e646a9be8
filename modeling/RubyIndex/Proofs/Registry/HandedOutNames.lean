import RubyIndex.Proofs.Registry.ScopeNames
import RubyIndex.Proofs.Registry.Scopes

/-! # Handing out names

A namespace hands out a stored name for every local scope that it is asked to name, whatever names
are asked for. The number at the end of a stored name tells apart the requests for one name. A
request can itself ask for a name that ends with the mark and a number, but the mark and the number
that have been put behind it are always the last ones, so different requests never get the same
name.

* `ScopeNames.handOut` answers one request and `ScopeNames.handOutAll` answers requests in a row;
  `ScopeNames.countedNames` does so with a counter for every name.
* `ScopeNames.request?` reads the request and its number back from a stored name.
* `ScopeNames.handOutAll_inTurn` is what the names for requests in a row are like. -/

namespace RubyIndex

namespace ScopeNames

/-! ## Requests in a row -/

/-- Hands out the name of a scope. A request without a name asks for the empty one. -/
def handOut (names : ScopeNames) (requested : Option String) (scope : ScopeId) :
    String × ScopeNames :=
  (names.next (requested.getD ""), names.record (requested.getD "") scope)

/-- Hands out the names of scopes, one after the other. -/
def handOutAll (names : ScopeNames) : List (Option String × ScopeId) → List String × ScopeNames
  | [] => ([], names)
  | (requested, scope) :: rest =>
      let (name, left) := names.handOut requested scope
      let (others, final) := handOutAll left rest
      (name :: others, final)

theorem fst_handOutAll_cons (names : ScopeNames) (requested : Option String) (scope : ScopeId)
    (rest : List (Option String × ScopeId)) :
    (names.handOutAll ((requested, scope) :: rest)).1 =
      names.next (requested.getD "") ::
        ((names.record (requested.getD "") scope).handOutAll rest).1 := rfl

/-- How many requests there have been for a name. -/
def timesAnswered (names : ScopeNames) (name : String) : Nat :=
  names.requests.countP (·.1 == name)

@[simp] theorem timesAnswered_empty (name : String) : timesAnswered {} name = 0 := rfl

/-- An answer counts for the name that was asked for, and for no other. -/
theorem timesAnswered_record (names : ScopeNames) (requested : String) (scope : ScopeId)
    (name : String) :
    (names.record requested scope).timesAnswered name =
      names.timesAnswered name + if requested = name then 1 else 0 := by
  rw [timesAnswered, record, List.countP_append, List.countP_singleton]
  simp only [beq_iff_eq, timesAnswered]

/-- How many of some requests ask for a name. -/
def timesRequested (requests : List (Option String)) (name : String) : Nat :=
  requests.countP fun requested => requested.getD "" == name

theorem timesRequested_cons (requested : Option String) (requests : List (Option String))
    (name : String) :
    timesRequested (requested :: requests) name =
      timesRequested requests name + if requested.getD "" = name then 1 else 0 := by
  rw [timesRequested, List.countP_cons]
  simp only [beq_iff_eq, timesRequested]

/-- **The name for each request**: it is numbered by the requests for the same name that were
answered before, in earlier rows or in this one. -/
theorem getElem?_fst_handOutAll (names : ScopeNames) (requests : List (Option String × ScopeId))
    (place : Nat) :
    (names.handOutAll requests).1[place]? = (requests[place]?).map fun request =>
      stored (request.1.getD "") (names.timesAnswered (request.1.getD "") +
        timesRequested ((requests.map (·.1)).take place) (request.1.getD "")) := by
  induction requests generalizing names place with
  | nil => rfl
  | cons first rest ih =>
    obtain ⟨requested, scope⟩ := first
    rw [fst_handOutAll_cons]
    cases place with
    | zero => rfl
    | succ place =>
      rw [List.getElem?_cons_succ, List.getElem?_cons_succ, ih, List.map_cons, List.take_succ_cons]
      refine congrArg (Option.map · _) (funext fun request => ?_)
      rw [timesAnswered_record, timesRequested_cons, Nat.add_right_comm, Nat.add_assoc]

/-! ## Counters -/

/-- **Names by counting**: the names for requests in a row, with a counter for every name that goes
up with each request for it. -/
def countedNames (counters : String → Nat) : List (Option String) → List String
  | [] => []
  | requested :: rest =>
      let name := requested.getD ""
      (name ++ "_local_" ++ toString (counters name)) ::
        countedNames (fun other => if name = other then counters name + 1 else counters other) rest

theorem length_countedNames (counters : String → Nat) (requests : List (Option String)) :
    (countedNames counters requests).length = requests.length := by
  induction requests generalizing counters with
  | nil => rfl
  | cons requested rest ih => rw [countedNames, List.length_cons, ih, List.length_cons]

/-- Who remembers all requests hands out the same names as who counts them. -/
theorem fst_handOutAll_eq_countedNames (names : ScopeNames)
    (requests : List (Option String × ScopeId)) :
    (names.handOutAll requests).1 = countedNames names.timesAnswered (requests.map (·.1)) := by
  induction requests generalizing names with
  | nil => rfl
  | cons first rest ih =>
    obtain ⟨requested, scope⟩ := first
    have hcounters : (names.record (requested.getD "") scope).timesAnswered = fun other =>
        if requested.getD "" = other then names.timesAnswered (requested.getD "") + 1
        else names.timesAnswered other := by
      funext other
      rw [timesAnswered_record]
      split
      · rename_i hsame
        rw [hsame]
      · rfl
    rw [fst_handOutAll_cons, ih, hcounters]
    rfl

/-! ## Reading names back -/

/-- **The request for a stored name** and the number of requests before it. The digits at the end
are the number, and the mark is in front of them; a name that was not made like that has no
request. -/
def request? (name : String) : Option (String × Nat) :=
  let text := name.toList
  let digits := (text.reverse.takeWhile Char.isDigit).reverse
  let requested := String.ofList (text.take (text.length - digits.length - "_local_".length))
  let count := Nat.ofDigitChars 10 digits 0
  if stored requested count = name then some (requested, count) else none

/-- **Stored names are read back**, and no others are. -/
theorem request?_eq_some_iff {name requested : String} {count : Nat} :
    request? name = some (requested, count) ↔ name = stored requested count := by
  constructor
  · intro hread
    unfold request? at hread
    dsimp only at hread
    split at hread
    · rename_i hstored
      obtain ⟨hrequested, hcount⟩ := Prod.mk.inj (Option.some.inj hread)
      rw [← hrequested, ← hcount]
      exact hstored.symm
    · cases hread
  · rintro rfl
    have hdigits : ((stored requested count).toList.reverse.takeWhile Char.isDigit).reverse =
        Nat.toDigits 10 count := by
      rw [takeWhile_isDigit_reverse_stored, List.reverse_reverse]
    have hlength : (stored requested count).toList.length - (Nat.toDigits 10 count).length -
        "_local_".length = requested.toList.length := by
      have hmark : "_local_".toList.length = "_local_".length := rfl
      rw [toList_stored, List.length_append, List.length_append, hmark]
      omega
    have hfront : (stored requested count).toList.take requested.toList.length =
        requested.toList := by
      rw [toList_stored, List.append_assoc, List.take_left]
    unfold request?
    dsimp only
    rw [hdigits, hlength, hfront, String.ofList_toList, Nat.ofDigitChars_ten_toDigits, if_pos rfl]

/-! ## Names in turn -/

/-- **Names that answer requests in turn.** -/
structure AnswerInTurn (requests : List (Option String)) (names : List String) : Prop where
  /-- There is one name for every request. -/
  length_eq : names.length = requests.length
  /-- It is the name that is asked for, with the mark and the number of earlier requests for it. -/
  numbered : ∀ place requested, requests[place]? = some requested → names[place]? =
    some (requested.getD "" ++ "_local_" ++
      toString (timesRequested (requests.take place) (requested.getD "")))
  /-- No two requests get the same name. -/
  distinct : names.Nodup
  /-- From a name one can read what was asked for, and how often before. -/
  readable : ∀ place requested name, requests[place]? = some requested → names[place]? = some name →
    request? name =
      some (requested.getD "", timesRequested (requests.take place) (requested.getD ""))

/-- A request counts for the later requests for the same name. -/
theorem timesRequested_lt {requests : List (Option String)} {early late : Nat}
    {requested : Option String} (hearly : requests[early]? = some requested) (hlt : early < late) :
    timesRequested (requests.take early) (requested.getD "") <
      timesRequested (requests.take late) (requested.getD "") := by
  have hupTo : requests.take (early + 1) = requests.take early ++ [requested] := by
    rw [List.take_add_one, hearly, Option.toList_some]
  have hone : timesRequested (requests.take (early + 1)) (requested.getD "") =
      timesRequested (requests.take early) (requested.getD "") + 1 := by
    rw [hupTo, timesRequested, List.countP_append, List.countP_singleton,
      if_pos (beq_self_eq_true _), ← timesRequested]
  have hmore : timesRequested (requests.take (early + 1)) (requested.getD "") ≤
      timesRequested (requests.take late) (requested.getD "") :=
    (List.take_prefix_take_left hlt).sublist.countP_le
  omega

/-- **Numbered names answer requests in turn**: they are different, as a stored name tells the
request and its number. -/
theorem answerInTurn_of_numbered {requests : List (Option String)} {names : List String}
    (hlength : names.length = requests.length)
    (hnumbered : ∀ place requested, requests[place]? = some requested → names[place]? =
      some (stored (requested.getD "")
        (timesRequested (requests.take place) (requested.getD "")))) :
    AnswerInTurn requests names where
  length_eq := hlength
  numbered := hnumbered
  distinct := by
    rw [List.Nodup, List.pairwise_iff_getElem]
    intro early late hearly hlate hlt hsame
    have hfirst := List.getElem?_eq_getElem (hlength ▸ hearly)
    have hsecond := List.getElem?_eq_getElem (hlength ▸ hlate)
    have hname := hnumbered early _ hfirst
    have hother := hnumbered late _ hsecond
    rw [List.getElem?_eq_getElem hearly, hsame, ← List.getElem?_eq_getElem hlate, hother,
      Option.some.injEq] at hname
    -- equal names would have one request and one number, but the later request counts more
    obtain ⟨hrequested, hcount⟩ := stored_inj hname
    have hmore := timesRequested_lt hfirst hlt
    rw [← hrequested] at hmore hcount
    omega
  readable := by
    intro place requested name hrequested hname
    rw [hnumbered place requested hrequested, Option.some.injEq] at hname
    exact request?_eq_some_iff.2 hname.symm

/-- **Handing out names.** Whatever names are asked for, a manager of names answers requests in
turn, as one does that has a counter for every name. A stored name can be read back, whoever handed
it out. The local scopes of a registry get their names in this way: a new scope has the name that
its owner hands out, and the owner remembers the request. -/
theorem handOutAll_inTurn (requests : List (Option String × ScopeId)) :
    AnswerInTurn (requests.map (·.1)) (handOutAll {} requests).1 ∧
    (handOutAll {} requests).1 = countedNames (fun _ => 0) (requests.map (·.1)) ∧
    (∀ name requested count, request? name = some (requested, count) ↔
      name = requested ++ "_local_" ++ toString count) ∧
    ∀ (before : Registry) owner requested anchor scope after,
      before.newLocalScope owner requested anchor = .ok (scope, after) →
      let answer := (⟨before.requestsOf owner⟩ : ScopeNames).handOut requested scope
      (after.scope? scope).map (·.name) = some answer.1 ∧
        after.requestsOf owner = answer.2.requests := by
  refine ⟨answerInTurn_of_numbered ?_ ?_, fst_handOutAll_eq_countedNames {} requests,
    fun name requested count => request?_eq_some_iff, ?_⟩
  · rw [fst_handOutAll_eq_countedNames, length_countedNames]
  · intro place requested hrequested
    obtain ⟨request, hrequest, rfl⟩ : ∃ request, requests[place]? = some request ∧
        request.1 = requested := by
      simpa only [List.getElem?_map, Option.map_eq_some_iff] using hrequested
    rw [getElem?_fst_handOutAll, hrequest, Option.map_some, timesAnswered_empty, Nat.zero_add]
  · intro before owner requested anchor scope after hmade
    obtain ⟨rfl, hgains⟩ := Registry.gainsScope_of_newLocalScope hmade
    have hadded := hgains.added (Registry.index_lt_of_newLocalScope hmade)
    refine ⟨by rw [hadded]; rfl, ?_⟩
    rw [hgains.requests, if_pos rfl]
    rfl

/-- Requests that look like stored names: the number that is put behind them tells them apart. -/
example : (handOutAll {} [(some "a", ⟨0⟩), (some "a_local_0", ⟨1⟩), (some "a", ⟨2⟩), (none, ⟨3⟩),
      (some "", ⟨4⟩), (some "a_local_0", ⟨5⟩)]).1 =
    ["a_local_0", "a_local_0_local_0", "a_local_1", "_local_0", "_local_1",
      "a_local_0_local_1"] := by
  decide +kernel

end ScopeNames

end RubyIndex
