import SigningSchema.Proofs.Corpus.Extension
import SigningSchema.Proofs.Encoder.Sharing
import SigningSchema.Proofs.Generation.Stages
import SigningSchema.Proofs.Registry.Agreement

-- Adding files never changes what is signed and sent for the payload messages that were there before.

namespace SigningSchema.Generation

open Corpus

variable {files added all : List SourceFile} {config : Config} {one other : Generation}

theorem Staged.encodePayload {corpus : Corpus} {generation : Generation}
    (staged : Staged corpus config generation) {request : String}
    (requested : request ∈ corpus.requestTypes) (input : Json) :
    generation.plans.encodePayload (Package.typeUrl request) input
      = generation.plans.encode request input := by
  have here : request ∈ generation.plans.requests := by
    rwa [EncoderPlans.requests_of_ofCorpus staged.plans]
  rw [EncoderPlans.encodePayload, EncoderPlans.payloadAt?_iff.mpr ⟨here, rfl⟩]

-- For every payload message of the files as they were: its entry, the plans of all that it reaches
-- and whatever its inputs are encoded to are as before.
theorem kept_of_extends (extended : Extends files added all)
    (accepted : ofCorpus (ofFiles files) config = .ok one)
    (acceptedToo : ofCorpus (ofFiles all) config = .ok other) :
    ∀ request ∈ (ofFiles files).requestTypes,
      (∃ entry, one.registry.get? (Package.typeUrl request) = some entry ∧
        other.registry.get? (Package.typeUrl request) = some entry) ∧
      (∃ closure, (ofFiles files).closure request = .ok closure ∧
        (ofFiles all).closure request = .ok closure ∧
        ∀ name ∈ closure, ∃ plan, one.plans.plan? name = some plan ∧
          other.plans.plan? name = some plan) ∧
      ∀ input, one.plans.encodePayload (Package.typeUrl request) input
        = other.plans.encodePayload (Package.typeUrl request) input := by
  intro request requested
  have staged := ofCorpus_iff_staged.mp accepted
  have stagedToo := ofCorpus_iff_staged.mp acceptedToo
  have requestedToo := extended.requested requested
  have resolves := Registry.resolves_of_ofCorpus staged.registry request requested
  have agree := extended.agreeBelow resolves
  have same : ∀ name, (ofFiles files).Reaches request name →
      (ofFiles files).messages.get? name = (ofFiles all).messages.get? name := by
    intro name path
    obtain ⟨fields, resolved⟩ := resolves name path
    obtain ⟨message, found⟩ := message_of_resolvedFields resolved
    rw [message_ok found, extended.find (message_ok found)]
  have shared := EncoderPlans.share_of_agreeBelow staged.plans stagedToo.plans agree same requested
    requestedToo
  refine ⟨Registry.entry_of_agreeBelow staged.registry stagedToo.registry agree (same request .refl)
    requested requestedToo, ?_, fun input => ?_⟩
  · obtain ⟨closure, closed⟩ := closure_of_resolves resolves
    exact ⟨closure, closed, agree.closure ▸ closed, fun name inside =>
      shared.plan name ((mem_closure closed).mp inside)⟩
  · rw [staged.encodePayload requested, stagedToo.encodePayload requestedToo]
    exact shared.encode (EncoderPlans.laidOut_of_ofCorpus staged.plans)
      (EncoderPlans.laidOut_of_ofCorpus stagedToo.plans) .refl input

def marketFile : SourceFile where
  path := "market.proto"
  package := "market"
  messages := [Registry.orderMessage, Registry.nodeMessage]
  enums := []
  requests := ["MsgOrder"]

def auditMessage : MessageDecl where
  package := "audit"
  name := "MsgAudit"
  fields := [⟨"level", "Level", false, 1⟩, ⟨"order", "market.MsgOrder", false, 2⟩]
  source := "audit.proto"
  legacyName := none

def auditFile : SourceFile where
  path := "audit.proto"
  package := "audit"
  messages := [auditMessage]
  enums := ["Level"]
  requests := ["MsgAudit"]

-- The plans of the market stand one place later in it.
def auditedCorpus : Corpus where
  messages := [("audit.MsgAudit", auditMessage), ("market.MsgOrder", Registry.orderMessage),
    ("market.Node", Registry.nodeMessage)]
  enums := ["audit.Level"]
  requestTypes := ["audit.MsgAudit", "market.MsgOrder"]

theorem extends_audit : Extends [marketFile] [auditFile] [auditFile, marketFile] where
  kept := List.sublist_cons_self _ _
  parts := .swap _ _ _
  fresh := by decide
  apart := by decide

theorem ofFiles_market : ofFiles [marketFile] = Registry.cyclicCorpus := by
  rw [ofFiles, List.mergeSort_singleton]
  rfl

theorem ofFiles_audited : ofFiles [auditFile, marketFile] = auditedCorpus := by
  rw [ofFiles, List.mergeSort_of_pairwise (by decide)]
  rfl

theorem resolvedFields_audit : auditedCorpus.resolvedFields "audit.MsgAudit" = .ok [
    ⟨"level", "level", .scalar .enum, false, 1⟩,
    ⟨"order", "order", .message "market.MsgOrder", false, 2⟩] := by
  rfl

theorem resolvedFields_auditedOrder : auditedCorpus.resolvedFields "market.MsgOrder" = .ok [
    ⟨"root", "root", .message "market.Node", false, 1⟩,
    ⟨"max_wait", "maxWait", .scalar .duration, false, 2⟩] := by
  rfl

theorem resolvedFields_auditedNode : auditedCorpus.resolvedFields "market.Node" = .ok [
    ⟨"next", "next", .message "market.Node", true, 1⟩,
    ⟨"order", "order", .message "market.MsgOrder", false, 2⟩,
    ⟨"label", "label", .scalar .string, false, 3⟩] := by
  rfl

theorem fullClosure_audited :
    auditedCorpus.fullClosure = .ok ["audit.MsgAudit", "market.MsgOrder", "market.Node"] := by
  have audit : auditedCorpus.closure "audit.MsgAudit"
      = .ok ["audit.MsgAudit", "market.MsgOrder", "market.Node"] := by
    rw [Corpus.closure, closureFrom_new rfl resolvedFields_audit]
    show auditedCorpus.closureFrom ["audit.MsgAudit"] ["market.MsgOrder"] = _
    rw [closureFrom_new rfl resolvedFields_auditedOrder]
    show auditedCorpus.closureFrom ["audit.MsgAudit", "market.MsgOrder"] ["market.Node"] = _
    rw [closureFrom_new rfl resolvedFields_auditedNode]
    show auditedCorpus.closureFrom ["audit.MsgAudit", "market.MsgOrder", "market.Node"] [] = _
    rw [closureFrom]
  have order : auditedCorpus.closure "market.MsgOrder" = .ok ["market.MsgOrder", "market.Node"] := by
    rw [Corpus.closure, closureFrom_new rfl resolvedFields_auditedOrder]
    show auditedCorpus.closureFrom ["market.MsgOrder"] ["market.Node"] = _
    rw [closureFrom_new rfl resolvedFields_auditedNode]
    show auditedCorpus.closureFrom ["market.MsgOrder", "market.Node"] [] = _
    rw [closureFrom]
  show ((auditedCorpus.closure "audit.MsgAudit").map _ >>= fun all =>
    (auditedCorpus.closure "market.MsgOrder").map _ >>= _) = _
  rw [audit, order]
  rfl

def auditedTarget (name : String) : String :=
  if name = "order" then "market.MsgOrder" else "market.Node"

theorem told_audited {message name nested : String}
    (member : auditedCorpus.HasMember message name (.message nested)) : nested = auditedTarget name := by
  obtain ⟨fields, resolved, field, declared, rfl, type⟩ := member
  have known := mem_keys_of_declares (declares_of_resolvedFields resolved)
  have told : ∀ field ∈ fields, ∀ nested ∈ messageOf? field, nested = auditedTarget field.camelName := by
    simp only [auditedCorpus, Table.keys, List.map_cons, List.map_nil, List.mem_cons, List.not_mem_nil,
      or_false] at known
    rcases known with rfl | rfl | rfl
    · rw [resolvedFields_audit] at resolved
      cases resolved
      decide
    · rw [resolvedFields_auditedOrder] at resolved
      cases resolved
      decide
    · rw [resolvedFields_auditedNode] at resolved
      cases resolved
      decide
  exact told field declared nested (by rw [messageOf?, type]; rfl)

-- The order of the market is signed as before, beside the audit that refers to it.
theorem kept_of_extends_audit :
    Extends [marketFile] [auditFile] [auditFile, marketFile] ∧
    ∃ one other, ofCorpus (ofFiles [marketFile]) .standard = .ok one ∧
      ofCorpus (ofFiles [auditFile, marketFile]) .standard = .ok other ∧
      other.registry.get? "/market.MsgOrder" = some Registry.orderEntry ∧
      ∀ input, one.plans.encodePayload "/market.MsgOrder" input
        = other.plans.encodePayload "/market.MsgOrder" input := by
  obtain ⟨one, accepted, registry⟩ := ofCorpus_of_registry rfl Registry.ofCorpus_cyclic
  obtain ⟨_, derived⟩ := Registry.ofCorpus_of_told fullClosure_audited auditedTarget
    (fun _ _ _ _ => told_audited) .standard
  obtain ⟨other, acceptedToo, _⟩ := ofCorpus_of_registry rfl derived
  rw [← ofFiles_market] at accepted
  rw [← ofFiles_audited] at acceptedToo
  have requested : "market.MsgOrder" ∈ (ofFiles [marketFile]).requestTypes := by
    rw [ofFiles_market]
    exact List.mem_singleton.mpr rfl
  obtain ⟨⟨entry, found, foundToo⟩, _, encoded⟩ :=
    kept_of_extends extends_audit accepted acceptedToo "market.MsgOrder" requested
  rw [registry] at found
  cases found
  exact ⟨extends_audit, one, other, accepted, acceptedToo, foundToo, encoded⟩

end SigningSchema.Generation
