import Chronicle.Proofs.Banking.Handling
import Chronicle.Proofs.Projection.Evicting
import Chronicle.Proofs.Projection.Founding
import Mathlib.Algebra.BigOperators.Group.Finset.Basic
import Mathlib.Algebra.BigOperators.Group.List.Basic
import Mathlib.Algebra.Ring.Int.Defs

/-!
# Chronicle.Proofs.Banking.Balances

The money in a log. An outcome changes nothing, an opening brings money in, and a transfer takes from
one account what it gives to another (`Sanctioned`). Where such batches are written behind one
another, no movement meets an account that is not there. If besides accounts are opened once and no
balance stops at an end of the range, all accounts hold together what they were opened with
(`Balanced`).
-/

namespace Chronicle

namespace Projector

variable {A S : Type} [Vocabulary A] {p : Projector A S} {log : List (Event A)} {s : StreamId}

/-- A projection was founded by an event of its stream. -/
theorem founded_of_projection (h : (p.projection log s).isSome = true) : p.Founded log s := by
  refine founds_none.foldAll (fun e he => ?_) h
  obtain ⟨hmem, hs⟩ := List.mem_filter.mp he
  exact ⟨hmem, by simpa using hs⟩

end Projector

namespace Banking

def InRange (n : Int) : Prop := -0x8000000000000000 ≤ n ∧ n ≤ 0x7fffffffffffffff

theorem toInt_saturate {n : Int} (h : InRange n) : (saturate n).toInt = n := by
  obtain ⟨hlow, hhigh⟩ := h
  have hmin : min n 0x7fffffffffffffff = n := by omega
  have hmax : max (-0x8000000000000000) n = n := by omega
  rw [saturate, hmin, hmax]
  exact Int64.toInt_ofInt_of_le (by omega) (by omega)

theorem streamOf_injective {account account' : AccountId} (h : streamOf account = streamOf account') :
    account = account' := congrArg StreamId.key h

/-! ## The money in a log -/

section Logs

variable {A : Type} [Includes Fact A]

/-- What a payload adds to the balance of its account, if it moves money. -/
def movement? (p : Payload A) : Option Int :=
  match p.fact? Fact with
  | some (.withdrawn _ _ amount) => some (-amount.amount.toInt)
  | some (.deposited _ _ amount) => some amount.amount.toInt
  | _ => none

/-- The balance that a payload opens an account with, if it opens one. -/
def initial? (p : Payload A) : Option Int :=
  match p.fact? Fact with
  | some (.opened _ _ initial) => some initial.amount.toInt
  | _ => none

/-- What all accounts of a log were opened with. -/
def invested (log : List (Event A)) : Int := (log.filterMap fun e => initial? e.payload).sum

/-- What a projection is worth. There is nothing in an account that is not there. -/
def worth : Option Account → Int
  | some held => held.balance.amount.toInt
  | none => 0

variable [Vocabulary A]

def total (log : List (Event A)) : Int :=
  ((Account.projector.projectedIn log).map fun s =>
    worth (Account.projector.projection log s)).sum

/-- No movement is dropped: where money is moved from or to, there is an account. -/
def Heard (log : List (Event A)) : Prop :=
  ∀ before e, before ++ [e] <+: log → (movement? e.payload).isSome = true →
    (Account.projector.projection before e.stream).isSome = true

/-- No balance is stopped at an end of the range while the log is folded. -/
def Unsaturated (log : List (Event A)) : Prop :=
  ∀ before e delta held, before ++ [e] <+: log → movement? e.payload = some delta →
    Account.projector.projection before e.stream = some held →
    InRange (held.balance.amount.toInt + delta)

/-- No movement is dropped, and the accounts hold together what they were opened with. -/
structure Balanced (log : List (Event A)) : Prop where
  heard : Heard log
  conserved : (openings (log.map Event.payload)).Nodup → Unsaturated log →
    total log = invested log

variable {log more : List (Event A)} {e : Event A} {account : AccountId} {s : StreamId}

theorem balanced_nil : Balanced ([] : List (Event A)) where
  heard before e h := by
    have := h.length_le
    simp at this
  conserved _ _ := rfl

omit [Vocabulary A] in
theorem invested_append : invested (log ++ more) = invested log + invested more := by
  rw [invested, List.filterMap_append, List.sum_append]
  rfl

theorem Unsaturated.of_append (h : Unsaturated (log ++ more)) : Unsaturated log :=
  fun before e delta held hbegins => h before e delta held (hbegins.trans (List.prefix_append _ _))

theorem Heard.concat (h : Heard log) (he : (movement? e.payload).isSome = true →
    (Account.projector.projection log e.stream).isSome = true) : Heard (log ++ [e]) := by
  intro before e' hbegins hmoves
  rcases List.prefix_concat_iff.mp hbegins with heq | hold
  · obtain ⟨rfl, hlast⟩ := List.append_inj' heq rfl
    cases hlast
    exact he hmoves
  · exact h before e' hold hmoves

instance (n : Int) : Decidable (InRange n) := inferInstanceAs (Decidable (_ ∧ _))

/-- Whether a balance is stopped can be told by folding the log up to each of its events. -/
theorem unsaturated_iff : Unsaturated log ↔ ∀ i : Fin log.length,
    ∀ delta ∈ movement? log[i].payload,
      ∀ held ∈ Account.projector.projection (log.take i) log[i].stream,
        InRange (held.balance.amount.toInt + delta) := by
  constructor
  · intro h i delta hdelta held hheld
    refine h (log.take i) log[i] delta held ?_ hdelta hheld
    exact List.take_concat_get' log i i.isLt ▸ List.take_prefix _ _
  · rintro h before e delta held ⟨after, rfl⟩ hdelta hheld
    have hat := h ⟨before.length, by simp⟩
    simp only [Fin.getElem_fin, List.append_assoc, List.singleton_append, List.take_left,
      List.getElem_append_right (Nat.le_refl _), Nat.sub_self, List.getElem_cons_zero] at hat
    exact hat delta hdelta held hheld

instance : Decidable (Unsaturated log) := decidable_of_iff' _ unsaturated_iff

/-- The sum over the accounts can be taken over more streams that are accounts. -/
theorem total_eq_sum {streams : Finset StreamId}
    (hall : ∀ s ∈ Account.projector.projectedIn log, s ∈ streams)
    (hconcerns : ∀ s ∈ streams, (Account.projector : Projector A Account).concerns s = true) :
    total log = ∑ s ∈ streams, worth (Account.projector.projection log s) := by
  have hnodup : (Account.projector.projectedIn log).Nodup := (List.nodup_dedup _).filter _
  rw [total, ← List.sum_toFinset _ hnodup]
  refine Finset.sum_subset (fun s hs => hall s (List.mem_toFinset.mp hs)) fun s hs hnone => ?_
  cases hprojection : Account.projector.projection log s with
  | none => rfl
  | some held =>
    have hsome : (Account.projector.projection log s).isSome = true := by
      rw [hprojection]
      rfl
    exact absurd (List.mem_toFinset.mpr (Projector.mem_projectedIn (hconcerns s hs) hsome)) hnone

/-- An event changes what the accounts hold by what it changes its own account. -/
theorem total_concat
    (hconcerns : (Account.projector : Projector A Account).concerns e.stream = true) :
    total (log ++ [e]) = total log - worth (Account.projector.projection log e.stream)
      + worth (Account.projector.fold (Account.projector.projection log e.stream) e) := by
  let streams : Finset StreamId := insert e.stream (Account.projector.projectedIn log).toFinset
  have hstreams : ∀ s ∈ streams, (Account.projector : Projector A Account).concerns s = true := by
    intro s hs
    rcases Finset.mem_insert.mp hs with rfl | hprojected
    · exact hconcerns
    · have hmem := List.mem_filter.mp (List.mem_toFinset.mp hprojected)
      exact (Projector.mem_streamsIn.mp hmem.1).1
  have hbefore : total log = ∑ s ∈ streams, worth (Account.projector.projection log s) :=
    total_eq_sum (fun s hs => Finset.mem_insert_of_mem (List.mem_toFinset.mpr hs)) hstreams
  have hafter : total (log ++ [e])
      = ∑ s ∈ streams, worth (Account.projector.projection (log ++ [e]) s) := by
    refine total_eq_sum (fun s hs => ?_) hstreams
    obtain ⟨hmem, hsome⟩ := List.mem_filter.mp hs
    by_cases hse : e.stream = s
    · rw [← hse]
      exact Finset.mem_insert_self _ _
    · rw [Projector.projection_concat, if_neg hse] at hsome
      refine Finset.mem_insert_of_mem (List.mem_toFinset.mpr (Projector.mem_projectedIn ?_ hsome))
      exact (Projector.mem_streamsIn.mp hmem).1
  have hothers : ∑ s ∈ streams.erase e.stream, worth (Account.projector.projection (log ++ [e]) s)
      = ∑ s ∈ streams.erase e.stream, worth (Account.projector.projection log s) := by
    refine Finset.sum_congr rfl fun s hs => ?_
    rw [Projector.projection_concat, if_neg (Finset.ne_of_mem_erase hs).symm]
  have hmem : e.stream ∈ streams := Finset.mem_insert_self _ _
  rw [hbefore, hafter, ← Finset.add_sum_erase _ _ hmem, ← Finset.add_sum_erase streams _ hmem,
    hothers, Projector.projection_concat, if_pos rfl]
  omega

/-- An event that changes no projection leaves everything where it is. -/
theorem total_of_still (hstill : ∀ state, Account.projector.fold state e = state) :
    total (log ++ [e]) = total log := by
  have hsame (s : StreamId) : Account.projector.projection (log ++ [e]) s
      = Account.projector.projection log s := by
    rw [Projector.projection_concat, hstill, ite_self]
  have hconcerned : ∀ s ∈ (Account.projector.projectedIn log).toFinset,
      (Account.projector : Projector A Account).concerns s = true := fun s hs =>
    (Projector.mem_streamsIn.mp (List.mem_filter.mp (List.mem_toFinset.mp hs)).1).1
  have hafter : ∀ s ∈ Account.projector.projectedIn (log ++ [e]),
      s ∈ (Account.projector.projectedIn log).toFinset := by
    intro s hs
    obtain ⟨hmem, hsome⟩ := List.mem_filter.mp hs
    rw [hsame] at hsome
    have hs := (Projector.mem_streamsIn.mp hmem).1
    exact List.mem_toFinset.mpr (Projector.mem_projectedIn hs hsome)
  rw [total_eq_sum hafter hconcerned, total_eq_sum (fun s => List.mem_toFinset.mpr) hconcerned]
  exact Finset.sum_congr rfl fun s _ => by rw [hsame]

/-! ## Batches -/

theorem stream_ofFact (hplaced : Placed A) (f : Fact) :
    (Payload.ofFact f : Payload A).stream = streamOf f.account :=
  hplaced _ f (Includes.view_inject f)

omit [Vocabulary A] in
theorem fact?_ofFact (f : Fact) : (Payload.ofFact f : Payload A).fact? Fact = some f :=
  Includes.view_inject f

theorem concerns_ofFact (hplaced : Placed A) {f : Fact} (he : e.payload = .ofFact f) :
    (Account.projector : Projector A Account).concerns e.stream = true := by
  rw [Event.stream, he, stream_ofFact hplaced]
  exact beq_self_eq_true category

/-- An account that was founded is there. -/
theorem isSome_of_founded (h : Account.projector.Founded log s) :
    (Account.projector.projection log s).isSome = true := by
  obtain ⟨e, he, hs, hcreates⟩ := h
  have hmem : e ∈ log.filter fun e => e.stream == s := List.mem_filter.mpr ⟨he, by simp [hs]⟩
  obtain ⟨before, after, hsplit⟩ := List.append_of_mem hmem
  have hhere (state : Option Account) : (Account.projector.fold state e).isSome = true := by
    cases state with
    | none => exact hcreates
    | some held => exact isSome_fold rfl
  rw [Projector.projection, hsplit, Projector.foldAll, List.foldl_append, List.foldl_cons]
  exact isSome_foldAll (hhere _)

/-- Only an opening founds an account. -/
theorem opening_of_founded (hplaced : Placed A)
    (h : Account.projector.Founded log (streamOf account)) :
    account ∈ openings (log.map Event.payload) := by
  obtain ⟨e, he, hs, hcreates⟩ := h
  obtain ⟨account', hopens⟩ : ∃ account', opening? e.payload = some account' := by
    have hfold : (Account.fold none (e.payload.fact? Fact)).isSome = true := hcreates
    unfold opening?
    cases hfact : e.payload.fact? Fact with
    | none =>
      rw [hfact] at hfold
      cases hfold
    | some f =>
      rw [hfact] at hfold
      cases f with
      | opened account' owner initial => exact ⟨account', rfl⟩
      | withdrawn => cases hfold
      | deposited => cases hfold
  have hsame : streamOf account' = streamOf account := (stream_of_opening hplaced hopens).symm.trans hs
  rw [← streamOf_injective hsame]
  exact mem_openings.mpr ⟨e.payload, List.mem_map_of_mem he, hopens⟩

omit [Vocabulary A] in
/-- A movement changes what its account is worth by its amount. -/
theorem worth_fold {f : Fact} (he : e.payload = .ofFact f) {delta : Int}
    (hdelta : movement? e.payload = some delta) {held : Account}
    (hrange : InRange (held.balance.amount.toInt + delta)) :
    worth (Account.projector.fold (some held) e) = held.balance.amount.toInt + delta := by
  show worth (Account.fold (some held) (e.payload.fact? Fact)) = _
  rw [he] at hdelta ⊢
  rw [movement?, fact?_ofFact] at hdelta
  rw [fact?_ofFact]
  cases f with
  | opened account owner initial => cases hdelta
  | withdrawn account id amount =>
    cases hdelta
    exact toInt_saturate (n := held.balance.amount.toInt - amount.amount.toInt) hrange
  | deposited account id amount =>
    cases hdelta
    exact toInt_saturate hrange

/-- What may be written behind a log: an outcome, an opening, or both sides of a transfer between two
accounts that were founded. -/
inductive Sanctioned (log : List (Event A)) : List (Payload A) → Prop where
  | nothing : Sanctioned log []
  | outcome (o : Outcome) : Sanctioned log [.outcome o]
  | opening (account : AccountId) (owner : String) (initial : Money) :
      Sanctioned log [.ofFact (Fact.opened account owner initial)]
  | transfer (id : Uuid) (source destination : AccountId) (amount : Money) :
      source ≠ destination → Account.projector.Founded log (streamOf source) →
      Account.projector.Founded log (streamOf destination) →
      Sanctioned log [.ofFact (Fact.withdrawn source id amount),
        .ofFact (Fact.deposited destination id amount)]

theorem Sanctioned.append {batch : List (Payload A)} (h : Sanctioned log batch) :
    Sanctioned (log ++ more) batch := by
  cases h with
  | nothing => exact .nothing
  | outcome o => exact .outcome o
  | opening account owner initial => exact .opening account owner initial
  | transfer id source destination amount hne hsource hdestination =>
    exact .transfer id source destination amount hne hsource.append hdestination.append

theorem Balanced.outcome (h : Balanced log) {o : Outcome} (he : e.payload = .outcome o) :
    Balanced (log ++ [e]) where
  heard := h.heard.concat fun hmoves => by
    rw [he] at hmoves
    cases hmoves
  conserved honce hrange := by
    rw [List.map_append, openings_append] at honce
    have hstill (state : Option Account) : Account.projector.fold state e = state := by
      show Account.fold state (e.payload.fact? Fact) = state
      rw [he]
      rfl
    have hnothing : invested [e] = 0 := by
      simp [invested, initial?, he, Payload.fact?]
    rw [total_of_still hstill, invested_append, hnothing,
      h.conserved (List.nodup_append.mp honce).1 hrange.of_append, Int.add_zero]

theorem Balanced.opened (hplaced : Placed A) (h : Balanced log) {owner : String} {initial : Money}
    (he : e.payload = .ofFact (Fact.opened account owner initial)) : Balanced (log ++ [e]) where
  heard := h.heard.concat fun hmoves => by
    rw [he, movement?, fact?_ofFact] at hmoves
    cases hmoves
  conserved honce hrange := by
    have hopens : openings [e.payload] = [account] := by
      rw [he]
      exact openings_ofFact _
    rw [List.map_append, openings_append, List.map_singleton, hopens] at honce
    obtain ⟨honce, -, hfresh⟩ := List.nodup_append.mp honce
    -- The account was not opened before, so there was none.
    have hnone : Account.projector.projection log e.stream = none := by
      by_contra hsome
      rw [← Option.not_isSome_iff_eq_none, not_not, Event.stream, he, stream_ofFact hplaced] at hsome
      have hopened := opening_of_founded hplaced (Projector.founded_of_projection hsome)
      exact hfresh account hopened account (List.mem_singleton_self _) rfl
    have hinitial : invested [e] = initial.amount.toInt := by
      simp [invested, initial?, he, fact?_ofFact]
    have hfolded : worth (Account.projector.fold none e) = initial.amount.toInt := by
      show worth (Account.fold none (e.payload.fact? Fact)) = _
      rw [he, fact?_ofFact]
      rfl
    rw [total_concat (concerns_ofFact hplaced he), hnone, hfolded, invested_append, hinitial,
      h.conserved honce hrange.of_append]
    show _ - 0 + _ = _
    omega

/-- What one side of a transfer does to what the accounts hold. -/
theorem total_moved (hplaced : Placed A) {f : Fact} (he : e.payload = .ofFact f) {delta : Int}
    (hdelta : movement? e.payload = some delta)
    (hsome : (Account.projector.projection log e.stream).isSome = true)
    (hrange : Unsaturated (log ++ [e])) : total (log ++ [e]) = total log + delta := by
  obtain ⟨held, hheld⟩ := Option.isSome_iff_exists.mp hsome
  rw [total_concat (concerns_ofFact hplaced he), hheld,
    worth_fold he hdelta (hrange log e delta held List.prefix_rfl hdelta hheld)]
  show _ - held.balance.amount.toInt + _ = _
  omega

theorem Balanced.transferred (hplaced : Placed A) (h : Balanced log) {w d : Event A} {id : Uuid}
    {source destination : AccountId} {amount : Money} (hne : source ≠ destination)
    (hsource : Account.projector.Founded log (streamOf source))
    (hdestination : Account.projector.Founded log (streamOf destination))
    (hw : w.payload = .ofFact (Fact.withdrawn source id amount))
    (hd : d.payload = .ofFact (Fact.deposited destination id amount)) :
    Balanced (log ++ [w, d]) := by
  have hws : w.stream = streamOf source := by rw [Event.stream, hw, stream_ofFact hplaced]; rfl
  have hds : d.stream = streamOf destination := by rw [Event.stream, hd, stream_ofFact hplaced]; rfl
  have hpayer : (Account.projector.projection log w.stream).isSome = true := by
    rw [hws]
    exact isSome_of_founded hsource
  -- The withdrawal concerns another account than the deposit.
  have hpayee : (Account.projector.projection (log ++ [w]) d.stream).isSome = true := by
    rw [Projector.projection_concat, hws, hds, if_neg fun hsame => hne (streamOf_injective hsame)]
    exact isSome_of_founded hdestination
  have hout : movement? w.payload = some (-amount.amount.toInt) := by
    rw [hw, movement?, fact?_ofFact]
  have hin : movement? d.payload = some amount.amount.toInt := by
    rw [hd, movement?, fact?_ofFact]
  have hboth : log ++ [w, d] = log ++ [w] ++ [d] := by simp
  have hnothing : invested [w, d] = 0 := by
    simp [invested, initial?, hw, hd, fact?_ofFact]
  have hnone : openings ([w, d].map Event.payload) = [] := by
    simp [openings, opening?, hw, hd, fact?_ofFact]
  refine ⟨?_, fun honce hrange => ?_⟩
  · rw [hboth]
    exact (h.heard.concat fun _ => hpayer).concat fun _ => hpayee
  · rw [List.map_append, openings_append, hnone, List.append_nil] at honce
    have hkept := h.conserved honce hrange.of_append
    rw [hboth] at hrange
    have hafter := total_moved hplaced hd hin hpayee hrange
    have hbefore := total_moved hplaced hw hout hpayer hrange.of_append
    rw [invested_append, hnothing, hboth, hafter, hbefore, hkept]
    omega

theorem Balanced.append (hplaced : Placed A) (h : Balanced log)
    (hbatch : Sanctioned log (more.map Event.payload)) : Balanced (log ++ more) := by
  generalize hpayloads : more.map Event.payload = batch at hbatch
  cases hbatch with
  | nothing =>
    rw [List.map_eq_nil_iff.mp hpayloads, List.append_nil]
    exact h
  | outcome o =>
    obtain ⟨e, rfl, he⟩ := List.map_eq_singleton_iff.mp hpayloads
    exact h.outcome he
  | opening account owner initial =>
    obtain ⟨e, rfl, he⟩ := List.map_eq_singleton_iff.mp hpayloads
    exact h.opened hplaced he
  | transfer id source destination amount hne hsource hdestination =>
    obtain ⟨w, rest, rfl, hw, hrest⟩ := List.map_eq_cons_iff.mp hpayloads
    obtain ⟨d, rfl, hd⟩ := List.map_eq_singleton_iff.mp hrest
    exact h.transferred hplaced hne hsource hdestination hw hd

end Logs

end Banking
end Chronicle
