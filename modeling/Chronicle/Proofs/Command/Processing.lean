import Chronicle.Notes
import Chronicle.Proofs.Command.Finishing
import Chronicle.Proofs.Running

/-!
# Chronicle.Proofs.Command.Processing

Commands side by side, each of which ends up with one result. In whatever order their jobs take steps
and whichever writes fail, a job that has finished has left its events and its outcome in the log and
its result on both feeds, or its events and its result only, if every attempt to record the outcome
failed (`commands_settle`). A handler that returns an outcome of its own command among its events
breaks that (`forged_outcome_recorded_twice`).
-/

namespace Chronicle
namespace Node

section

variable {A S B : Type} [Vocabulary A] {n n' : Node A S B} {o r : Nat} {base : List (Event A)}

theorem Unfolds.of_run {is : List Nat} (h : runMoves moveJob n is = some n') :
    ∃ ws, Unfolds o r n ws n' := by
  refine runMoves_induction (P := fun n' => ∃ ws, Unfolds o r n ws n') ⟨[], .start⟩ ?_ h
  intro pre i u v _ _ hmove hu
  obtain ⟨ws, hu⟩ := hu
  exact ⟨_, hu.job i hmove⟩

/-- Commands of different identities on a node whose handlers return no outcomes. What was written is
in the log and nothing else, both feeds have the results of the finished jobs and nothing else, and
jobs finish unless they wait for a token that never fires. -/
theorem commands_settle (h : n.Ready base) (ho : (n.outcomes.mailbox o).Live)
    (hr : (n.results.mailbox r).Live) :
    (∀ ws n', Unfolds o r n ws n' →
      n'.jobs.map (·.job.command) = n.jobs.map (·.job.command) ∧
      (∃ log, n'.store.contents = .payloads log ∧
        log.map Event.payload = base.map Event.payload ++ acceptedPayloads ws) ∧
      (∃ sent, Fed o r n n' sent) ∧
      ∀ i a result, n'.jobs[i]? = some a → a.job.phase = .finished result →
        result.id = a.job.command.id ∧
        Settled n.policy (base.map Event.payload) ws i result) ∧
    ∀ nodes movers, Course o r n nodes movers → GoesOn nodes →
      ∀ i < n.jobs.length, Fair nodes movers i →
        (∃ t a result, (nodes t).jobs[i]? = some a ∧ a.job.phase = .finished result) ∨
          ∃ t, ∀ t' ≥ t, ∃ a, (nodes t').jobs[i]? = some a ∧ Awaits (nodes t') a := by
  refine ⟨fun ws n' hu => ?_, fun nodes movers hc hgoesOn i hi hfair => ?_⟩
  · have hb := hu.books h
    exact ⟨hb.commands, hb.contents, hu.fed h ho hr, fun i a result ha hphase =>
      hb.settled h ha hphase⟩
  · exact hc.finishes h hi hfair hgoesOn

end

def listening (handlers : HandlerTable Notes.Fact Int64 Unit) (commands : List (Command Unit)) :
    Node Notes.Fact Int64 Unit :=
  { store := .ofPayloads 0
    model := .new Notes.projector .unbounded
    handlers
    policy := { maxRetries := 0 }
    results := Broadcaster.new.subscribe.1
    outcomes := Broadcaster.new.subscribe.1
    jobs := commands.map fun c => { job := { command := c, persists := true }, token := .never } }

/-- A command that is handled, and one that is not. The first write fails. -/
def twoCommands : Node Notes.Fact Int64 Unit :=
  { listening
      ⟨[("Note", .shared fun _ => .finish (.handled (.ok [.fact (.noted "a" 1)] "noted")))]⟩
      [⟨.ofNat 1, "Note", ()⟩, ⟨.ofNat 2, "Forget", ()⟩] with
    store := { (Store.ofPayloads 0 : Store Notes.Fact) with writeFaults := 1 } }

theorem ready_twoCommands : twoCommands.Ready [] where
  contents := rfl
  acks := rfl
  received a ha := by
    rcases List.mem_pair.mp ha with rfl | rfl <;> exact ⟨rfl, rfl⟩
  distinct := by decide
  unrecorded p hp := by cases hp
  cancellable a ha := by
    rcases List.mem_pair.mp ha with rfl | rfl <;> exact .inl rfl
  built a ha fired := by
    rcases List.mem_pair.mp ha with rfl | rfl <;> cases fired <;> exact fun h => by cases h
  handled a ha fired e he h hends := by
    rcases List.mem_pair.mp ha with rfl | rfl
    · cases fired with
      | true => cases he
      | false =>
        cases he
        cases hends
        intro p hp b hb hpasses
        rw [List.mem_singleton.mp hp] at hpasses
        rcases hpasses with ⟨o, ho, -⟩ | ⟨hsearches, -⟩
        · cases ho
        · cases hsearches
    · cases fired <;> cases he

/-- The second command's outcome is lost, the first is handled in the meantime. -/
theorem two_commands_settle :
    ∃ ws n', Unfolds 0 0 twoCommands ws n' ∧
      n'.jobs.map (·.job.result?) =
        [some (.processed (.ofNat 1) [.fact (.noted "a" 1)] (.ok "noted")),
          some (.unhandled (.ofNat 2) "no handler registered for Forget")] ∧
      (∀ i a result, n'.jobs[i]? = some a → a.job.phase = .finished result →
        Settled { maxRetries := 0 } [] ws i result) ∧
      ∃ sent, Fed 0 0 twoCommands n' sent := by
  have hrun : runMoves moveJob twoCommands [0, 1, 0, 1, 0, 0, 1, 0] = some _ := rfl
  obtain ⟨ws, hu⟩ := Unfolds.of_run (o := 0) (r := 0) hrun
  have ho : (twoCommands.outcomes.mailbox 0).Live := Mailbox.live_new
  have hr : (twoCommands.results.mailbox 0).Live := Mailbox.live_new
  obtain ⟨-, -, hfed, hsettled⟩ := (commands_settle ready_twoCommands ho hr).1 ws _ hu
  exact ⟨ws, _, hu, by decide, fun i a result ha hphase => (hsettled i a result ha hphase).2, hfed⟩

/-- A command whose handler returns an outcome of the command itself. -/
def forging : Node Notes.Fact Int64 Unit :=
  listening
    ⟨[("Forge", .shared fun c => .finish (.handled (.ok [.outcome ⟨c.id, .ok "forged"⟩] "done")))]⟩
    [⟨.ofNat 1, "Forge", ()⟩]

/-- No write fails, and the log ends up with two outcomes that contradict each other. -/
theorem forged_outcome_recorded_twice :
    ∃ n' log, runMoves moveJob forging [0, 0, 0, 0, 0] = some n' ∧
      n'.store.contents = .payloads log ∧
      n'.jobs.map (·.job.result?) =
        [some (.processed (.ofNat 1) [.outcome ⟨.ofNat 1, .ok "forged"⟩] (.ok "done"))] ∧
      outcomesOf (.ofNat 1) (log.map Event.payload)
        = [⟨.ofNat 1, .ok "forged"⟩, ⟨.ofNat 1, .ok "done"⟩] := by
  exact ⟨_, _, rfl, rfl, by decide, by decide⟩

end Node
end Chronicle
