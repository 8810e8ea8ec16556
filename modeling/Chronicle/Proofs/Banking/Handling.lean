import Chronicle.Banking.Bank
import Chronicle.Proofs.Command.Descent
import Chronicle.Proofs.Log.Storing
import Chronicle.Proofs.Projection.Folding
import Chronicle.Proofs.Projection.Reading

/-!
# Chronicle.Proofs.Banking.Handling

Which accounts the bank's handlers open (`openings`). A create asks for its account first and opens
it only if it is told that there is none (`work_cases`); nothing else opens accounts. Where a read of
the log finds no account, none was opened (`unopened_of_findsNothing`).
-/

namespace Chronicle

namespace Banking

/-! ## Openings -/

section Openings

variable {A : Type} [Includes Fact A]

/-- The account that a payload opens. -/
def opening? (p : Payload A) : Option AccountId :=
  match p.fact? Fact with
  | some (.opened account _ _) => some account
  | _ => none

def openings (payloads : List (Payload A)) : List AccountId := payloads.filterMap opening?

theorem openings_append (ps qs : List (Payload A)) :
    openings (ps ++ qs) = openings ps ++ openings qs := List.filterMap_append

theorem openings_outcome (o : Outcome) : openings [(.outcome o : Payload A)] = [] := rfl

theorem openings_ofFact (f : Fact) : openings [(Payload.ofFact f : Payload A)] =
    match f with
    | .opened account _ _ => [account]
    | _ => [] := by
  have hview : (Payload.ofFact f : Payload A).fact? Fact = some f := Includes.view_inject f
  cases f <;> simp [openings, opening?, hview]

theorem mem_openings {account : AccountId} {ps : List (Payload A)} :
    account ∈ openings ps ↔ ∃ p ∈ ps, opening? p = some account := List.mem_filterMap

end Openings

/-- The facts of the bank belong to the streams of their accounts, whatever else there is. -/
def Placed (A : Type) [Vocabulary A] [Includes Fact A] : Prop :=
  ∀ (a : A) (f : Fact), Includes.view? a = some f → Vocabulary.stream a = streamOf f.account

/-! ## The read model -/

section Truth

variable {A : Type} [Includes Fact A] {e : Event A} {events log : List (Event A)}
  {state : Option Account} {account : AccountId}

theorem isSome_fold (h : state.isSome = true) :
    (Account.projector.fold state e).isSome = true := by
  obtain ⟨held, rfl⟩ := Option.isSome_iff_exists.mp h
  show (Account.fold (some held) _).isSome = true
  cases e.payload.fact? Fact with
  | none => rfl
  | some f => cases f <;> rfl

theorem isSome_foldAll (h : state.isSome = true) :
    (Account.projector.foldAll state events).isSome = true := by
  induction events generalizing state with
  | nil => exact h
  | cons e rest ih => exact ih (isSome_fold h)

/-- An account that was opened is there from then on. -/
theorem isSome_foldAll_of_opening (he : e ∈ events) (h : opening? e.payload = some account) :
    (Account.projector.foldAll state events).isSome = true := by
  obtain ⟨before, after, rfl⟩ := List.append_of_mem he
  have hopened : (Account.projector.fold (Account.projector.foldAll state before) e).isSome
      = true := by
    show (Account.fold _ (e.payload.fact? Fact)).isSome = true
    unfold opening? at h
    split at h
    · rename_i hfact
      rw [hfact]
      rfl
    · cases h
  rw [Projector.foldAll, List.foldl_append, List.foldl_cons]
  exact isSome_foldAll hopened

variable [Vocabulary A]

theorem stream_of_opening (hplaced : Placed A) {p : Payload A} (h : opening? p = some account) :
    p.stream = streamOf account := by
  cases p with
  | outcome o => cases h
  | fact a =>
    unfold opening? at h
    split at h
    · rename_i f owner initial hview
      cases h
      exact hplaced a _ hview
    · cases h

/-- A read of the log finds no account only if none was opened there. -/
theorem unopened_of_findsNothing {store : Store A} (hplaced : Placed A) (hlog : store.Holds log)
    (hfinds : Account.projector.findsNothing
      (store.readStream (streamOf account) Position.last).page = true) :
    account ∉ openings (log.map Event.payload) := by
  intro hmem
  obtain ⟨p, hp, hopens⟩ := mem_openings.mp hmem
  obtain ⟨e, he, rfl⟩ := List.mem_map.mp hp
  have hpage : (store.readStream (streamOf account) Position.last).page =
      Log.answered store.streamFaults.head? (Log.below log (streamOf account) Position.last) :=
    hlog.page_readStream
  rw [hpage] at hfinds
  cases hfault : store.streamFaults.head? with
  | some failure =>
    rw [hfault] at hfinds
    cases hfinds
  | none =>
    rw [hfault] at hfinds
    have hread : e ∈ Log.below log (streamOf account) Position.last := by
      refine List.mem_filter.mpr ⟨he, Bool.and_eq_true_iff.mpr ⟨?_, ?_⟩⟩
      · exact decide_eq_true (hlog.numbered.below_last he)
      · exact beq_iff_eq.mpr (stream_of_opening hplaced hopens)
    have hsome : (Account.projector.foldAll none
        (Log.below log (streamOf account) Position.last)).isSome = true :=
      isSome_foldAll_of_opening hread hopens
    rw [Option.isNone_iff_eq_none.mp hfinds] at hsome
    cases hsome

end Truth

/-! ## What handlers return -/

section Handlers

variable {A : Type} [Includes Fact A] {told : AccountId → Prop} {b : Request}
  {r : ProcessingResult A} {w : Work A Account}

/-- What is wanted of the result of a request. A create opens its account if it was told that there
is none, or else fails; nothing else opens accounts. -/
def Warranted (told : AccountId → Prop) (b : Request) (r : ProcessingResult A) : Prop :=
  match b with
  | .create account _ _ =>
    openings r.events = [account] ∧ told account ∨ openings r.events = [] ∧ r.result.isOk = false
  | _ => openings r.events = []

/-- Whatever a run returns is warranted. -/
def Supports (told : AccountId → Prop) (b : Request) (w : Work A Account) : Prop :=
  ∀ id h, w.MayEnd (.handled h) → Warranted told b (.processed id h.events h.result)

theorem warranted_failure (hevents : r.events = []) (hresult : r.result.isOk = false) :
    Warranted told b r := by
  cases b with
  | create account owner initial => exact .inr ⟨by rw [hevents]; rfl, hresult⟩
  | transfer => exact congrArg openings hevents
  | other type => exact congrArg openings hevents

theorem Warranted.openings_cases (h : Warranted told b r) :
    openings r.events = [] ∨ ∃ account, openings r.events = [account] ∧ told account := by
  cases b with
  | create account owner initial =>
    rcases h with ⟨hopens, htold⟩ | ⟨hnothing, -⟩
    · exact .inr ⟨account, hopens, htold⟩
    · exact .inl hnothing
  | transfer => exact .inl h
  | other type => exact .inl h

theorem Warranted.mono {told' : AccountId → Prop} (h : Warranted told b r)
    (htold : ∀ account, told account → told' account) : Warranted told' b r := by
  cases b with
  | create account owner initial => exact h.imp_left fun ⟨hopens, hold⟩ => ⟨hopens, htold _ hold⟩
  | transfer => exact h
  | other type => exact h

theorem warranted_classify (id : CommandId) (fired : Bool) {c : Completion A}
    (h : ∀ handled, c = .handled handled →
      Warranted told b (.processed id handled.events handled.result)) :
    Warranted told b (ProcessingResult.classify id fired c).1 := by
  cases c with
  | handled handled => exact h handled rfl
  | failed e =>
    unfold ProcessingResult.classify
    dsimp only
    repeat' split
    all_goals exact warranted_failure rfl rfl
  | panicked p => exact warranted_failure rfl rfl

theorem supports_finish {c : Completion A} (h : ∀ id handled, c = .handled handled →
    Warranted told b (.processed id handled.events handled.result)) :
    Supports told b (.finish c : Work A Account) := by
  intro id handled hends
  cases hends
  exact h id handled rfl

theorem supports_refuse (f : Failure) : Supports told b (refuse f : Work A Account) :=
  supports_finish fun _ _ heq => by
    cases heq
    exact warranted_failure rfl rfl

theorem supports_failed (e : HandlerError) :
    Supports told b (.finish (.failed e) : Work A Account) := supports_finish nofun

theorem supports_query {s : StreamId} {next : Except RuntimeError (Option Account) → Work A Account}
    (h : ∀ answer, Supports told b (next answer)) : Supports told b (.query s next) := by
  intro id handled hends
  cases hends with
  | query answer hrest => exact h answer id handled hrest

theorem supports_checkCancel {next : Bool → Work A Account}
    (h : ∀ fired, Supports told b (next fired)) : Supports told b (.checkCancel next) := by
  intro id handled hends
  cases hends with
  | checkCancel fired hrest => exact h fired id handled hrest

theorem supports_withAccount {account : AccountId} {next : Option Account → Work A Account}
    (h : ∀ held, Supports told b (next held)) : Supports told b (withAccount account next) := by
  refine supports_query fun answer => ?_
  cases answer with
  | ok held => exact h held
  | error e => exact supports_failed _

theorem supports_transfer (id : Uuid) (source destination : AccountId) (amount : Money) :
    Supports told (.transfer id source destination amount)
      (transfer id source destination amount : Work A Account) := by
  unfold transfer
  split
  · exact supports_refuse _
  split
  · exact supports_refuse _
  refine supports_withAccount fun payer => supports_withAccount fun payee => ?_
  dsimp only
  split
  · exact supports_refuse _
  refine supports_checkCancel fun fired => ?_
  split
  · exact supports_failed _
  · refine supports_finish fun _ _ heq => ?_
    cases heq
    show openings ([_] ++ [_]) = []
    rw [openings_append, openings_ofFact, openings_ofFact]
    rfl

/-- A create asks for its account first, and opens it only if it is told that there is none. -/
theorem work_cases (b : Request) : (∀ told, Supports told b (b.work : Work A Account)) ∨
    ∃ account next, (b.work : Work A Account) = .query (streamOf account) next ∧
      ∀ told answer, (answer = .ok none → told account) → Supports told b (next answer) := by
  cases b with
  | transfer id source destination amount => exact .inl fun _ => supports_transfer _ _ _ _
  | other type => exact .inl fun _ => supports_failed _
  | create account owner initial =>
    simp only [Request.work, create]
    by_cases hblank : Text.isBlank owner = true
    · rw [if_pos hblank]
      exact .inl fun _ => supports_refuse _
    rw [if_neg hblank]
    refine .inr ⟨account, _, rfl, fun told answer htold => ?_⟩
    match answer with
    | .error e => exact supports_failed _
    | .ok (some held) => exact supports_refuse _
    | .ok none =>
      refine supports_checkCancel fun fired => ?_
      split
      · exact supports_failed _
      · refine supports_finish fun _ _ heq => ?_
        cases heq
        exact .inl ⟨openings_ofFact _, htold rfl⟩

variable {c : Command Request} {fired : Bool}

theorem find?_handlers {p : Provider A Account Request}
    (h : (handlers : HandlerTable A Account Request).find? c.type = some p) :
    p = .shared fun c => c.body.work := by
  obtain ⟨before, after, htable, -⟩ := List.lookup_eq_some_iff.mp h
  have hmem : (c.type, p) ∈ (handlers : HandlerTable A Account Request).handlers := by
    rw [htable]
    exact List.mem_append_right _ List.mem_cons_self
  have htable : (handlers : HandlerTable A Account Request).handlers =
      [("CreateAccount", .shared fun c => c.body.work),
        ("TransferMoney", .shared fun c => c.body.work)] := rfl
  rw [htable, List.mem_cons, List.mem_singleton] at hmem
  rcases hmem with heq | heq <;> exact (Prod.mk.inj heq).2

theorem work_of_run {e : Execution A Account}
    (h : ((handlers : HandlerTable A Account Request).resolve c fired).1 = .run e) :
    e.work = c.body.work := by
  unfold HandlerTable.resolve at h
  cases hf : (handlers : HandlerTable A Account Request).find? c.type with
  | none =>
    simp only [hf] at h
    cases h
  | some p =>
    simp only [hf, find?_handlers hf] at h
    split at h
    · cases h
    · cases h
      rfl

theorem failed_of_refused
    (h : ((handlers : HandlerTable A Account Request).resolve c fired).1 = .refused r) :
    r.result.isOk = false := by
  unfold HandlerTable.resolve at h
  cases hf : (handlers : HandlerTable A Account Request).find? c.type with
  | none =>
    simp only [hf] at h
    cases h
    rfl
  | some p =>
    simp only [hf, find?_handlers hf] at h
    split at h
    · cases h
      rfl
    · cases h

end Handlers

end Banking
end Chronicle
