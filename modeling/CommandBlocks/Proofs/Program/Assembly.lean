import CommandBlocks.Proofs.Program.Forest
import CommandBlocks.Proofs.Results
import Mathlib.Data.List.Permutation

namespace CommandBlocks

/-- A statement whose body was put together backwards is closed with the body in order. -/
theorem OpenStatement.close_reverse (o : OpenStatement) (body : List Statement) :
    o.close body.reverse = .mk o.kind o.fields (if body.isEmpty then none else some body) := by
  rw [close, List.isEmpty_reverse, List.reverse_reverse]

namespace Graph

variable {g : Graph} {options : Options} {hacyclic : g.Acyclic}

/-- Following the chain of a block takes its visits from the fresh blocks and adds its statements to
    those complete, whatever waits around it. -/
private def FollowsChain (g : Graph) (options : Options) (hacyclic : g.Acyclic) (id : BlockId) :
    Prop :=
  ∀ fresh pending complete opened, (g.visits hacyclic id).Nodup →
    g.visits hacyclic id ⊆ fresh →
    g.build options fresh (id :: pending) complete opened =
      match g.chain options hacyclic id with
      | .error fault => .error (.input fault)
      | .ok part =>
        g.build options (fresh.diff (g.visits hacyclic id)) pending (part.reverse ++ complete) opened

/-- Chains that are followed one after the other are put together one after the other. -/
private theorem build_append {ids : List BlockId}
    (hids : ∀ id ∈ ids, FollowsChain g options hacyclic id) (fresh pending : List BlockId)
    (complete : List Statement) (opened : List OpenStatement)
    (hnodup : (ids.flatMap (g.visits hacyclic)).Nodup)
    (hfresh : ids.flatMap (g.visits hacyclic) ⊆ fresh) :
    g.build options fresh (ids ++ pending) complete opened =
      match concatenated (ids.map (g.chain options hacyclic)) with
      | .error fault => .error (.input fault)
      | .ok part =>
        g.build options (fresh.diff (ids.flatMap (g.visits hacyclic))) pending
          (part.reverse ++ complete) opened := by
  induction ids generalizing fresh complete with
  | nil => simp [concatenated]
  | cons id ids ih =>
    rw [List.flatMap_cons, List.nodup_append'] at hnodup
    obtain ⟨hfirst, hrest, hdisjoint⟩ := hnodup
    rw [List.flatMap_cons, List.append_subset] at hfresh
    obtain ⟨hfirstFresh, hrestFresh⟩ := hfresh
    have hleft : ids.flatMap (g.visits hacyclic) ⊆ fresh.diff (g.visits hacyclic id) := by
      intro other hother
      exact List.mem_diff_of_mem (hrestFresh hother) fun hmem => hdisjoint hmem hother
    rw [List.cons_append, hids id List.mem_cons_self _ _ _ _ hfirst hfirstFresh, List.map_cons,
      concatenated]
    cases g.chain options hacyclic id with
    | error fault => rfl
    | ok part =>
      simp only [ih (fun other hother => hids other (List.mem_cons_of_mem _ hother)) _ _ hrest hleft]
      cases concatenated (ids.map (g.chain options hacyclic)) with
      | error fault => rfl
      | ok rest =>
        simp [bind, Except.bind, pure, Except.pure, List.diff_append, List.flatMap_cons]

/-- Putting a chain together gives what reading it gives, whatever statements are open. -/
private theorem followsChain (hg : g.WellFormed) {id : BlockId}
    (hid : g.blocks.contains id = true) : FollowsChain g options hacyclic id := by
  induction id using hacyclic.wellFounded_swap_leads.induction with
  | _ id ih =>
    intro fresh pending complete opened hnodup hfresh
    obtain ⟨block, hget⟩ := Table.contains_iff.1 hid
    have hfollower : ∀ next ∈ g.followers id, FollowsChain g options hacyclic next := by
      intro next hnext
      have hleads := leads_of_mem_followers hnext
      exact ih next hleads (hg.contains_of_leads hleads).2
    rw [visits_eq, followers, List.flatMap_append] at hnodup hfresh
    obtain ⟨hself, hnodup⟩ := List.nodup_cons.1 hnodup
    obtain ⟨hbodyNodup, hrestNodup, hdisjoint⟩ := List.nodup_append'.1 hnodup
    obtain ⟨hmem, hfresh⟩ := List.cons_subset.1 hfresh
    obtain ⟨hbodyFresh, hrestFresh⟩ := List.append_subset.1 hfresh
    have hbodyLeft : (g.children id).flatMap (g.visits hacyclic) ⊆ fresh.erase id := by
      intro other hother
      refine (List.mem_erase_of_ne ?_).2 (hbodyFresh hother)
      rintro rfl
      exact hself (List.mem_append_left _ hother)
    have hrestLeft : (g.successor? id).toList.flatMap (g.visits hacyclic) ⊆
        (fresh.erase id).diff ((g.children id).flatMap (g.visits hacyclic)) := by
      intro other hother
      refine List.mem_diff_of_mem ((List.mem_erase_of_ne ?_).2 (hrestFresh hother)) ?_
      · rintro rfl
        exact hself (List.mem_append_right _ hother)
      · exact fun hbody => hdisjoint hbody hother
    rw [build, hget, chain_eq options hacyclic hget, visits_eq, followers, List.flatMap_append]
    simp only [if_pos hmem]
    cases block.fields options id with
    | error fault => rfl
    | ok fields =>
      have hbody := build_append
        (fun child hchild => hfollower child (List.mem_append_left _ hchild)) (fresh.erase id) [] []
        (⟨id, block.kind, fields, pending, complete⟩ :: opened) hbodyNodup hbodyLeft
      rw [List.append_nil] at hbody
      simp only [hbody]
      cases concatenated ((g.children id).map (g.chain options hacyclic)) with
      | error fault => rfl
      | ok body =>
        have hrest := build_append
          (fun next hnext => hfollower next (List.mem_append_right _ hnext))
          ((fresh.erase id).diff ((g.children id).flatMap (g.visits hacyclic))) pending
          (.mk block.kind fields (if body.isEmpty then none else some body) :: complete) opened
          hrestNodup hrestLeft
        simp only [List.append_nil, build, OpenStatement.close_reverse, hrest]
        cases concatenated ((g.successor? id).toList.map (g.chain options hacyclic)) with
        | error fault => rfl
        | ok rest => simp [bind, Except.bind, pure, Except.pure, List.diff_cons, List.diff_append]

/-- Once the shape is checked, compiling is reading. -/
theorem compile_of_shaped (hg : g.WellFormed) (hshaped : g.Shaped) (options : Options) :
    g.compile options = (g.reading options hshaped.acyclic).mapError .input := by
  have hroots : ∀ root ∈ g.roots, FollowsChain g options hshaped.acyclic root :=
    fun root hroot => followsChain hg (mem_roots.1 hroot).1
  have hbuild := build_append hroots g.blocks.keys [] [] [] (nodup_readingOrder hshaped)
    fun id hid => (readingOrder_perm_keys hg hshaped).subset hid
  rw [List.append_nil] at hbuild
  rw [compile, hg.shapeFault?_eq_none_iff.2 hshaped, reading]
  simp only [hbuild]
  cases concatenated (g.roots.map (g.chain options hshaped.acyclic)) with
  | error fault => rfl
  | ok program => simp [build, Except.mapError]

/-- A well-formed graph that passes the checks of its shape compiles to its recursive reading, which
    meets every block once. If values are at fault, compiling ends in the fault of the first block
    at fault in the order of the reading; it never ends in a cycle. -/
theorem compile_eq_reading (hg : g.WellFormed) (hshape : g.shapeFault? = none)
    (options : Options) :
    ∃ hacyclic : g.Acyclic,
      g.compile options = (g.reading options hacyclic).mapError .input ∧
      (g.readingOrder hacyclic).Perm g.blocks.keys ∧
      (∀ fault, g.compile options = .error fault ↔ ∃ inputFault, fault = .input inputFault ∧
        (g.readingOrder hacyclic).findSome? (g.inputFault? options) = some inputFault) ∧
      ∀ id, g.compile options ≠ .error (.shape (.cycle id)) := by
  have hshaped := hg.shapeFault?_eq_none_iff.1 hshape
  have hcompile := compile_of_shaped hg hshaped options
  have hfault : ∀ fault, g.compile options = .error fault ↔ ∃ inputFault,
      fault = .input inputFault ∧
        (g.readingOrder hshaped.acyclic).findSome? (g.inputFault? options) = some inputFault := by
    intro fault
    rw [hcompile, ← faultOf?_reading hg options hshaped.acyclic]
    cases g.reading options hshaped.acyclic <;> simp [Except.mapError, faultOf?, eq_comm]
  refine ⟨hshaped.acyclic, hcompile, readingOrder_perm_keys hg hshaped, hfault, ?_⟩
  intro id hcycle
  obtain ⟨inputFault, heq, -⟩ := (hfault _).1 hcycle
  cases heq

/-- A block that repeats two chains, the first of which starts with a block that holds another. The
    links do not come in the order of the blocks that they lead to. -/
def nestedChains : Graph where
  blocks := .ofList [(⟨0⟩, { kind := .repeatTimes, childCount := 2 }),
    (⟨1⟩, { kind := .waitSeconds }), (⟨2⟩, { kind := .captureImage }),
    (⟨3⟩, { kind := .ifThen, values := .ofList [(.condition, .text "lit")], childCount := 1 }),
    (⟨4⟩, { kind := .gpioWrite }), (⟨5⟩, { kind := .ifElse })]
  links := .ofList [(⟨0⟩, ⟨⟨0⟩, .child, ⟨3⟩⟩), (⟨1⟩, ⟨⟨3⟩, .next, ⟨1⟩⟩),
    (⟨2⟩, ⟨⟨0⟩, .child, ⟨2⟩⟩), (⟨3⟩, ⟨⟨3⟩, .child, ⟨4⟩⟩)]
  nextBlock := ⟨6⟩
  nextLink := ⟨4⟩

/-- The chain of the older child link comes first, and what is nested before what comes next. -/
def nestedProgram : Program :=
  [.mk .repeatTimes [] (some [
      .mk .ifThen [(.condition, .text "lit")] (some [.mk .gpioWrite [] none]),
      .mk .waitSeconds [] none, .mk .captureImage [] none]),
    .mk .ifElse [] none]

theorem compile_nestedChains : nestedChains.WellFormed ∧ nestedChains.shapeFault? = none ∧
    nestedChains.compile {} = .ok nestedProgram ∧
    (∃ hacyclic : nestedChains.Acyclic,
      nestedChains.reading {} hacyclic = .ok nestedProgram ∧
      (nestedChains.readingOrder hacyclic).Perm nestedChains.blocks.keys) ∧
    ∃ hacyclic : nestedChains.Acyclic,
      (nestedChains.readingOrder hacyclic).findSome? (nestedChains.inputFault? ⟨true, false⟩) =
        some (.missing ⟨0⟩ .count) := by
  have hg : nestedChains.WellFormed := ⟨by decide, by decide⟩
  have hshape : nestedChains.shapeFault? = none := by cbv
  have hcompile : nestedChains.compile {} = .ok nestedProgram := by cbv
  have hmissing : nestedChains.compile ⟨true, false⟩ = .error (.input (.missing ⟨0⟩ .count)) := by
    cbv
  obtain ⟨hacyclic, hreading, hperm, -⟩ := compile_eq_reading hg hshape {}
  obtain ⟨_, -, -, hfault, -⟩ := compile_eq_reading hg hshape ⟨true, false⟩
  obtain ⟨fault, hsame, hfirst⟩ := (hfault _).1 hmissing
  obtain rfl := CompileFault.input.inj hsame
  exact ⟨hg, hshape, hcompile,
    ⟨hacyclic, mapError_eq_ok_iff.1 (hreading.symm.trans hcompile), hperm⟩, hacyclic, hfirst⟩

end Graph

end CommandBlocks
