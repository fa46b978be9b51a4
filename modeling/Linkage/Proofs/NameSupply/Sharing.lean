import Linkage.Proofs.NameSupply

/-!
# Workers that share one supply of names

Several workers generate the code of one type at once. Each has contexts of its own, which are made from the type's generator or
copied from one another, but all contexts of the type take their names from the one supply. Taking a name is a single step, so a
run is told by who has the next turn: any order of turns is possible. The names that come out carry consecutive numbers, whatever
the order, and are all different as long as the numbers do not come around.
-/

namespace Linkage

/-- What a worker does in one turn. It knows its contexts by the order in which it got them. -/
inductive WorkerAction where
  /-- Make a context for code inside a method, or outside of all. -/
  | enter (method : Option String)
  /-- Make another context that is for the same method as one it has. -/
  | copy (context : Nat)
  /-- Take a name for a factory through a context it has. -/
  | take (context : Nat)
  deriving DecidableEq, Repr

/-- A worker: the methods that its contexts are for, and what it has still to do. -/
structure Worker where
  contexts : List (Option String) := []
  todo : List WorkerAction

/-- Workers on the code of one type, and the names that are left to all of them. -/
structure Workshop where
  names : NameSupply
  workers : List Worker

namespace Worker

/-- One turn of a worker: the name it takes, if any, then the worker and the names as they are afterwards. An action on a context
that the worker does not have does nothing. -/
def turn (w : Worker) (names : NameSupply) : Option String × Worker × NameSupply :=
  match w.todo with
  | [] => (none, w, names)
  | .enter method :: rest => (none, { contexts := w.contexts ++ [method], todo := rest }, names)
  | .copy context :: rest => (none, { contexts := w.contexts ++ w.contexts[context]?.toList, todo := rest }, names)
  | .take context :: rest =>
    match w.contexts[context]? with
    | none => (none, { w with todo := rest }, names)
    | some method => (some (names.next method).1, { w with todo := rest }, (names.next method).2)

end Worker

namespace Workshop

/-- One turn of the worker with a number. A number that no worker has is a turn of nobody. -/
def turn (s : Workshop) (number : Nat) : Option String × Workshop :=
  match s.workers[number]? with
  | none => (none, s)
  | some w => ((w.turn s.names).1, { names := (w.turn s.names).2.2, workers := s.workers.set number (w.turn s.names).2.1 })

/-- The names that are taken when the workers have their turns in some order, and the workshop afterwards. -/
def run (s : Workshop) : List Nat → List String × Workshop
  | [] => ([], s)
  | number :: turns => ((s.turn number).1.toList ++ ((s.turn number).2.run turns).1, ((s.turn number).2.run turns).2)

/-! ## Numbers -/

/-- Names of factories that carry the numbers from one on, each the number after the one before it. -/
inductive Numbered : UInt32 → List String → Prop where
  | nil (first : UInt32) : Numbered first []
  | cons (first : UInt32) (method : Option String) {names : List String} (rest : Numbered (first + 1) names) :
      Numbered first (NameSupply.factoryName method first :: names)

variable {first : UInt32} {names : List String}

theorem Numbered.exists_getElem (h : Numbered first names) :
    ∀ (i : Nat) (hi : i < names.length), ∃ method, names[i] = NameSupply.factoryName method (first + UInt32.ofNat i) := by
  induction h with
  | nil => exact fun _ hi => absurd hi (by simp)
  | cons first method rest ih =>
    rintro (_ | i) hi
    · exact ⟨method, by simp⟩
    · obtain ⟨other, hother⟩ := ih i (by simpa using hi)
      refine ⟨other, ?_⟩
      rw [List.getElem_cons_succ, hother, UInt32.ofNat_add, UInt32.add_assoc, UInt32.add_comm 1]
      rfl

/-- Consecutive numbers do not repeat before all of them have been used. -/
theorem Numbered.nodup (h : Numbered first names) (hroom : names.length ≤ UInt32.size) : names.Nodup := by
  rw [List.Nodup, List.pairwise_iff_getElem]
  intro i j hi hj hlt heq
  obtain ⟨_, hi'⟩ := h.exists_getElem i hi
  obtain ⟨_, hj'⟩ := h.exists_getElem j hj
  have hnumber := NameSupply.number_eq_of_factoryName_eq (hi'.symm.trans (heq.trans hj'))
  rw [UInt32.add_right_inj] at hnumber
  have hnat := congrArg UInt32.toNat hnumber
  rw [UInt32.toNat_ofNat_of_lt' (by omega), UInt32.toNat_ofNat_of_lt' (by omega)] at hnat
  omega

/-! ## Turns and runs -/

/-- A turn either takes no name and leaves the names as they are, or takes the name with the next number. -/
theorem turn_cases (s : Workshop) (number : Nat) :
    (s.turn number).1 = none ∧ (s.turn number).2.names = s.names ∨
      ∃ method, (s.turn number).1 = some (NameSupply.factoryName method s.names.count) ∧
        (s.turn number).2.names = { s.names with count := s.names.count + 1 } := by
  unfold turn
  cases s.workers[number]? with
  | none => exact .inl ⟨rfl, rfl⟩
  | some w =>
    simp only [Worker.turn]
    split
    · exact .inl ⟨rfl, rfl⟩
    · exact .inl ⟨rfl, rfl⟩
    · exact .inl ⟨rfl, rfl⟩
    · split
      · exact .inl ⟨rfl, rfl⟩
      · exact .inr ⟨_, rfl, rfl⟩

/-- Whatever the order of the turns, the names taken carry the numbers that come next. -/
theorem numbered_run (s : Workshop) (turns : List Nat) : Numbered s.names.count (s.run turns).1 := by
  induction turns generalizing s with
  | nil => exact .nil _
  | cons number turns ih =>
    have hrest := ih (s.turn number).2
    simp only [run]
    obtain ⟨hname, hnames⟩ | ⟨method, hname, hnames⟩ := turn_cases s number
    · rw [hname]
      rw [hnames] at hrest
      exact hrest
    · rw [hname]
      rw [hnames] at hrest
      exact .cons _ method hrest

/-- **Names are unique across workers.** However many workers share the supply of a type, whatever methods their contexts are for,
and in whatever order they have their turns, no name is given twice, unless more than `2 ^ 32` are taken. -/
theorem nodup_run (s : Workshop) (turns : List Nat) (hroom : (s.run turns).1.length ≤ UInt32.size) : (s.run turns).1.Nodup :=
  (numbered_run s turns).nodup hroom

/-- Three workers on one type: one is inside `<init>` and copies its context, one has methods whose names look like the numbered
names of others, and one works outside of all methods. -/
def sample : Workshop where
  names := { owner := "demo/Main" }
  workers :=
    [{ todo := [.enter (some "<init>"), .take 0, .copy 0, .take 1] },
     { todo := [.enter (some ""), .enter (some "run$1"), .take 0, .take 1, .take 0] },
     { contexts := [none], todo := [.take 0, .take 0] }]

/-- Seven names in an order in which the workers' turns are mixed. -/
theorem nodup_run_sample :
    (sample.run [2, 0, 1, 1, 0, 1, 0, 2, 0, 1, 1]).1 =
        ["ctorRef$0", "ctorRef$init$1", "ctorRef$$2", "ctorRef$3", "ctorRef$init$4", "ctorRef$run$1$5", "ctorRef$$6"] ∧
      (sample.run [2, 0, 1, 1, 0, 1, 0, 2, 0, 1, 1]).1.Nodup :=
  ⟨by decide +kernel, nodup_run sample _ (by decide +kernel)⟩

end Workshop

end Linkage
