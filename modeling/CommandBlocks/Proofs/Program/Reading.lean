import CommandBlocks.Proofs.Graph.Shape

namespace CommandBlocks

/-- Parts of a program one after the other, or the fault of the first part that has one. -/
def concatenated : List (Except InputFault Program) → Except InputFault Program
  | [] => .ok []
  | part :: parts => do
    let first ← part
    let rest ← concatenated parts
    return first ++ rest

/-- The fault in which a result ends, if it is not a value. -/
def faultOf? {α : Type} : Except InputFault α → Option InputFault
  | .ok _ => none
  | .error fault => some fault

theorem faultOf?_eq_some_iff {α : Type} {result : Except InputFault α} {fault : InputFault} :
    faultOf? result = some fault ↔ result = .error fault := by
  cases result <;> simp [faultOf?]

/-- A result that is put together from two ends in the first fault of the two. -/
theorem faultOf?_bind {α β : Type} {result : Except InputFault α}
    {next : α → Except InputFault β} {later : Option InputFault}
    (hnext : ∀ a, faultOf? (next a) = later) :
    faultOf? (result >>= next) = (faultOf? result).or later := by
  cases result with
  | error fault => rfl
  | ok a => exact hnext a

theorem faultOf?_bind_pure {α β : Type} {result : Except InputFault α} {f : α → β} :
    faultOf? (result >>= fun a => pure (f a)) = faultOf? result := by
  cases result <;> rfl

/-- The fault of a whole is the first one of its parts. -/
private theorem faultOf?_concatenated {ids : List BlockId}
    {read : BlockId → Except InputFault Program} {order : BlockId → List BlockId}
    {fault? : BlockId → Option InputFault}
    (hread : ∀ id ∈ ids, faultOf? (read id) = (order id).findSome? fault?) :
    faultOf? (concatenated (ids.map read)) = (ids.flatMap order).findSome? fault? := by
  induction ids with
  | nil => rfl
  | cons id ids ih =>
    rw [List.map_cons, concatenated, List.flatMap_cons, List.findSome?_append,
      ← hread id List.mem_cons_self,
      ← ih fun other hother => hread other (List.mem_cons_of_mem _ hother)]
    exact faultOf?_bind fun first => faultOf?_bind_pure

namespace Graph

variable {g : Graph}

/-- The statements of a block and of the chain that runs after it. The body of a block's statement
    holds the chains of its children, in the order in which they were linked to it. -/
def chain (g : Graph) (options : Options) (hacyclic : g.Acyclic) (id : BlockId) :
    Except InputFault Program :=
  match g.blocks.get? id with
  | none => .ok []
  | some block => do
    let fields ← block.fields options id
    let body ← concatenated <|
      (g.children id).attach.map fun child => g.chain options hacyclic child.1
    let rest ← concatenated <|
      (g.successor? id).toList.attach.map fun next => g.chain options hacyclic next.1
    return .mk block.kind fields (if body.isEmpty then none else some body) :: rest
termination_by hacyclic.wellFounded_swap_leads.wrap id
decreasing_by
  · exact leads_of_mem_followers (List.mem_append_left _ child.2)
  · exact leads_of_mem_followers (List.mem_append_right _ next.2)

/-- The program that a graph without cycles stands for: the chains of its roots. -/
def reading (g : Graph) (options : Options) (hacyclic : g.Acyclic) : Except InputFault Program :=
  concatenated (g.roots.map (g.chain options hacyclic))

/-- The blocks that a reading of a block's chain meets, in the order in which it meets them. -/
def visits (g : Graph) (hacyclic : g.Acyclic) (id : BlockId) : List BlockId :=
  id :: (g.followers id).attach.flatMap fun follower => g.visits hacyclic follower.1
termination_by hacyclic.wellFounded_swap_leads.wrap id
decreasing_by exact leads_of_mem_followers follower.2

/-- The blocks that a reading of the graph meets, in the order in which it meets them. -/
def readingOrder (g : Graph) (hacyclic : g.Acyclic) : List BlockId :=
  g.roots.flatMap (g.visits hacyclic)

/-- What is wrong with the values of a block's inputs. -/
def inputFault? (g : Graph) (options : Options) (id : BlockId) : Option InputFault :=
  (g.blocks.get? id).bind fun block => faultOf? (block.fields options id)

/-- Reading a block gives its statement around what its children give, and then what its next block
    gives. -/
theorem chain_eq (options : Options) (hacyclic : g.Acyclic) {id : BlockId} {block : Block}
    (hget : g.blocks.get? id = some block) :
    g.chain options hacyclic id = do
      let fields ← block.fields options id
      let body ← concatenated ((g.children id).map (g.chain options hacyclic))
      let rest ← concatenated ((g.successor? id).toList.map (g.chain options hacyclic))
      return .mk block.kind fields (if body.isEmpty then none else some body) :: rest := by
  rw [chain, hget]
  simp only [List.map_attach_eq_pmap, List.pmap_eq_map]

/-- Reading a block visits it and then what its followers lead to. -/
theorem visits_eq (hacyclic : g.Acyclic) (id : BlockId) :
    g.visits hacyclic id = id :: (g.followers id).flatMap (g.visits hacyclic) := by
  rw [visits]
  simp only [List.flatMap_def, List.map_attach_eq_pmap, List.pmap_eq_map]

/-- A reading of a chain of blocks ends in the first fault that it meets. -/
theorem faultOf?_chain (hg : g.WellFormed) (options : Options) (hacyclic : g.Acyclic)
    {id : BlockId} (hid : g.blocks.contains id = true) :
    faultOf? (g.chain options hacyclic id) =
      (g.visits hacyclic id).findSome? (g.inputFault? options) := by
  induction id using hacyclic.wellFounded_swap_leads.induction with
  | _ id ih =>
    obtain ⟨block, hget⟩ := Table.contains_iff.1 hid
    have hfollower : ∀ next ∈ g.followers id, faultOf? (g.chain options hacyclic next) =
        (g.visits hacyclic next).findSome? (g.inputFault? options) := by
      intro next hnext
      have hleads := leads_of_mem_followers hnext
      exact ih next hleads (hg.contains_of_leads hleads).2
    have hbody := faultOf?_concatenated fun child hchild =>
      hfollower child (List.mem_append_left _ hchild)
    have hrest := faultOf?_concatenated fun next hnext =>
      hfollower next (List.mem_append_right _ hnext)
    have hself : g.inputFault? options id = faultOf? (block.fields options id) := by
      rw [inputFault?, hget, Option.bind_some]
    rw [chain_eq options hacyclic hget, visits_eq, followers, List.flatMap_append,
      ← List.singleton_append, List.findSome?_append, List.findSome?_append,
      List.findSome?_singleton, hself, ← hbody, ← hrest]
    exact faultOf?_bind fun fields => faultOf?_bind fun body => faultOf?_bind_pure

/-- The fault of a reading is that of the first block in order that has one. -/
theorem faultOf?_reading (hg : g.WellFormed) (options : Options) (hacyclic : g.Acyclic) :
    faultOf? (g.reading options hacyclic) =
      (g.readingOrder hacyclic).findSome? (g.inputFault? options) :=
  faultOf?_concatenated fun _ hid => faultOf?_chain hg options hacyclic (mem_roots.1 hid).1

end Graph

end CommandBlocks
