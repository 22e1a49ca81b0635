import LayeredConfig.Proofs.Node.Copying
import LayeredConfig.Proofs.Tree.Anonymous
import LayeredConfig.Proofs.Tree.Documents

/-!
# Documents through nodes and back

A document survives being made a node, being frozen, being copied and being written out, in every
order: all of these keep the content, and the content of a document is written out as the document.
What a copy of a frozen node stores is what the node stored before it was frozen.
-/

namespace LayeredConfig.Memory

variable {m : Memory} {n c : NodeId} {v : Value} {b : Blueprint} {call : DeferredId → Eval Value}

/-- What a node is written out as is told by its content, if that holds no computation. -/
theorem export_of_content (hm : m.forest.Sound) (hn : n ∈ m.forest)
    (h : (m.view (.node n)).content = b) (hb : b.Settled) (call : DeferredId → Eval Value) :
    (Operation.export n).performWith call m = .ok b.plain m := by
  subst h
  exact Node.exportWith_of_settled hm hn hb call

/-- Writing what can be stored to a node that is not frozen succeeds. -/
theorem set_of_open (hm : m.forest.Sound) (hc : m.forest.frozen c = false) (key : String)
    (hv : (m.view v).WellKeyed) :
    ∃ m', (Operation.set c (.text key) v).performWith call m = .ok .null m' := by
  obtain ⟨g, _, hwrite, _⟩ := hm.write_fields hc hv key
  rw [← Forest.assign_of_writable hc] at hwrite
  have hset : Node.set c (.text key) v m = .ok () { m with forest := g } := onForest_of_ok hwrite
  exact ⟨_, bind_of_ok hset⟩

/-- Nodes of one content that are open store the same. -/
theorem anonymous_of_open {m' : Memory} {k : NodeId} (hm : m.forest.Sound) (hm' : m'.forest.Sound)
    (hn : m.forest.Open n) (hk : m'.forest.Open k)
    (h : (m.view (.node n)).content = (m'.view (.node k)).content) :
    (m.view (.node n)).anonymous = (m'.view (.node k)).anonymous :=
  (standing_of_open hm hn).anonymous_congr (standing_of_open hm' hk) h

/-- A node is made of the mapping, frozen and copied. It is written out as the mapping before and
after it is frozen, and so is the copy. The copy stores what the node stored before it was frozen,
and every node in it can be written to. -/
def GivesBack (m : Memory) (call : DeferredId → Eval Value) (entries : List (Value × Value)) :
    Prop :=
  ∃ n m₁ m₂ k m₃,
    (Operation.create (.mapping entries)).performWith call m = .ok (.node n) m₁ ∧
    (Operation.export n).performWith call m₁ = .ok (.mapping entries) m₁ ∧
    (Operation.freeze n).performWith call m₁ = .ok (.node n) m₂ ∧
    (Operation.export n).performWith call m₂ = .ok (.mapping entries) m₂ ∧
    (Operation.copy n).performWith call m₂ = .ok (.node k) m₃ ∧
    (Operation.export k).performWith call m₃ = .ok (.mapping entries) m₃ ∧
    (m₃.view (.node k)).anonymous = (m₁.view (.node n)).anonymous ∧
    ∀ c, m₃.forest.Reaches k c → ∀ key v, (m₃.view v).WellKeyed →
      ∃ m₄, (Operation.set c (.text key) v).performWith call m₃ = .ok .null m₄

/-- The node is written out as a document, and a node made of this stores what a copy does. -/
def Rebuilds (m : Memory) (call : DeferredId → Eval Value) (n : NodeId) : Prop :=
  ∃ entries j m₁ k m₂,
    (Operation.export n).performWith call m = .ok (.mapping entries) m ∧
    (Value.mapping entries).Document ∧
    (Operation.create (.mapping entries)).performWith call m = .ok (.node j) m₁ ∧
    (Operation.copy n).performWith call m₁ = .ok (.node k) m₂ ∧
    (m₂.view (.node j)).anonymous = (m₂.view (.node k)).anonymous

/-- A node with the content of a document can be made of it. -/
private theorem draft_of_document (hm : m.forest.Sound) {entries : List (Value × Value)}
    (hd : (Value.mapping entries).Document) (call : DeferredId → Eval Value) : ∃ n m₁ fields,
      (Operation.create (.mapping entries)).performWith call m = .ok (.node n) m₁ ∧
      (m.view (.mapping entries)).content = .node fields ∧ Draft m m₁ n fields := by
  have hcontent : (m.view (.mapping entries)).content
      = .node (m.view (.mapping entries)).fields := by
    rw [view, Forest.view_mapping, Tree.content_mapping, Tree.fields]
  obtain ⟨n, m₁, hcreate, hdraft⟩ := draft_of_content hm (hd.wellKeyed_view m) hcontent
  exact ⟨n, m₁, _, bind_of_ok hcreate, hcontent, hdraft⟩

theorem givesBack_of_document (hm : m.forest.Sound) {entries : List (Value × Value)}
    (hd : (Value.mapping entries).Document) (call : DeferredId → Eval Value) :
    m.GivesBack call entries := by
  obtain ⟨n, m₁, fields, hcreate, hd', hmade⟩ := draft_of_document hm hd call
  have hsettled : (Blueprint.node fields).Settled := hd' ▸ hd.settled_view m
  have hplain : (Blueprint.node fields).plain = .mapping entries := hd' ▸ hd.plain_view m
  let m₂ : Memory := { m₁ with forest := m₁.forest.freeze n }
  have hm₂ : m₂.forest.Sound := hmade.sound.freeze n
  have hfrozen : (m₂.view (.node n)).content = Blueprint.node fields :=
    (hmade.sound.content_freeze n n).trans hmade.content_view
  obtain ⟨k, m₃, hcopy, hcopied⟩ := draft_of_copy hm₂ n call
  have hcontent : (m₃.view (.node k)).content = .node fields := by
    rw [hcopied.content_view, ← content_eq_fields hm₂, hfrozen]
  refine ⟨n, m₁, m₂, k, m₃, hcreate, ?_, rfl, ?_, hcopy, ?_, ?_, fun c hc key v hv ↦ ?_⟩
  · rw [export_of_content hmade.sound hmade.mem hmade.content_view hsettled call, hplain]
  · rw [export_of_content hm₂ (Forest.mem_freeze.mpr hmade.mem) hfrozen hsettled call, hplain]
  · rw [export_of_content hcopied.sound hcopied.mem hcontent hsettled call, hplain]
  · exact anonymous_of_open hcopied.sound hmade.sound hcopied.writable hmade.writable
      (hcontent.trans hmade.content_view.symm)
  · exact set_of_open hcopied.sound (hcopied.writable c hc) key hv

theorem rebuilds_of_settled (hm : m.forest.Sound) (hn : n ∈ m.forest)
    (hsettled : (m.view (.node n)).content.Settled) (call : DeferredId → Eval Value) :
    m.Rebuilds call n := by
  have hcontent := content_eq_fields hm n
  have hdistinct := distinct_fields hm (.node n)
  have hplain := Blueprint.plain_node (m.view (.node n)).fields
  rw [hcontent] at hsettled
  have hd := hsettled.document hdistinct
  have hagain := (hsettled.content_plain hdistinct m).1
  have hexport := export_of_content hm hn hcontent hsettled call
  rw [hplain] at hd hagain hexport
  obtain ⟨j, m₁, fields, hcreate, hd', hmade⟩ := draft_of_document hm hd call
  obtain ⟨k, m₂, hcopy, hcopied⟩ := draft_of_copy hmade.sound n call
  refine ⟨_, j, m₁, k, m₂, hexport, hd, hcreate, hcopy, ?_⟩
  -- the original is what it was when it is copied
  have hlater := hmade.later hcopied.beyond
  refine anonymous_of_open hcopied.sound hcopied.sound hlater.writable hcopied.writable ?_
  rw [hlater.content_view, hcopied.content_view, hmade.beyond.view_eq hm (known_node hn), ← hagain,
    hd']

/-- **Conversion, freezing, copying and writing out undo one another.** A document that is made a
node comes back as it was, from the node, from the frozen node and from a copy of that. The copy
stores what the node stored before it was frozen, and every node in it can be written to. A node
made of what a node without computations is written out as stores what a copy of that node does. -/
theorem Reachable.document_round_trip (hm : m.Reachable) (call : DeferredId → Eval Value) :
    (∀ entries, (Value.mapping entries).Document → m.GivesBack call entries) ∧
    ∀ n ∈ m.forest, (m.view (.node n)).content.Settled → m.Rebuilds call n :=
  ⟨fun _ hd ↦ givesBack_of_document hm.sound hd call,
    fun _ hn hsettled ↦ rebuilds_of_settled hm.sound hn hsettled call⟩

/-- A mapping with a mapping and a list in a list, and with nothing under a key. -/
def twofold : List (Value × Value) :=
  [(.text "a", .list [.mapping [(.text "b", .int 1)], .list [.bool true]]), (.text "c", .null)]

theorem document_twofold : (Value.mapping twofold).Document := by
  have hinner : (Value.mapping [(.text "b", .int 1)]).Document :=
    @Value.Document.mapping [("b", .int 1)] (by decide)
      (List.forall_mem_singleton.mpr (.scalar (.int 1)))
  have hlist : (Value.list [.bool true]).Document :=
    .list (List.forall_mem_singleton.mpr (.scalar (.bool true)))
  have hitems : (Value.list [.mapping [(.text "b", .int 1)], .list [.bool true]]).Document :=
    .list (List.forall_mem_cons.mpr ⟨hinner, List.forall_mem_singleton.mpr hlist⟩)
  exact @Value.Document.mapping [("a", .list [.mapping [(.text "b", .int 1)], .list [.bool true]]),
    ("c", .null)] (by decide)
    (List.forall_mem_cons.mpr ⟨hitems, List.forall_mem_singleton.mpr (.scalar .null)⟩)

/-- Beside a node that is there, a nested document is given back by the node made of it. -/
theorem document_round_trip_sample : listing.Reachable ∧ (Value.mapping twofold).Document ∧
    (∃ n m₁ m₂, (Operation.create (.mapping twofold)).performWith evaluate listing
        = .ok (.node n) m₁ ∧
      (Operation.freeze n).performWith evaluate m₁ = .ok (.node n) m₂ ∧
      (Operation.export n).performWith evaluate m₂ = .ok (.mapping twofold) m₂) ∧
    ⟨0⟩ ∈ listing.forest ∧ (listing.view (.node ⟨0⟩)).content.Settled ∧
    ∃ entries, (Operation.export ⟨0⟩).performWith evaluate listing
        = .ok (.mapping entries) listing ∧ (Value.mapping entries).Document := by
  have hmem : ⟨0⟩ ∈ listing.forest := by decide +kernel
  have hsettled : (listing.view (.node ⟨0⟩)).content.Settled :=
    .node (List.forall_mem_singleton.mpr (.list (List.forall_mem_singleton.mpr (.scalar (.int 1)))))
  obtain ⟨hdocument, hnode⟩ := reachable_listing.document_round_trip evaluate
  obtain ⟨n, m₁, m₂, _, _, hcreate, _, hfreeze, hexport, _⟩ := hdocument twofold document_twofold
  obtain ⟨entries, _, _, _, _, hwritten, hd, _⟩ := hnode ⟨0⟩ hmem hsettled
  exact ⟨reachable_listing, document_twofold, ⟨n, m₁, m₂, hcreate, hfreeze, hexport⟩, hmem,
    hsettled, entries, hwritten, hd⟩

end LayeredConfig.Memory
