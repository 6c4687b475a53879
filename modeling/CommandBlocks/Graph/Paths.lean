import CommandBlocks.Graph

namespace CommandBlocks

/-- The targets of those links that leave a block, by either handle. -/
def targetsFrom (id : BlockId) (links : List Link) : List BlockId :=
  (links.filter fun link => link.source = id).map (·.target)

/-- The links that do not leave a block. -/
def linksElsewhere (id : BlockId) (links : List Link) : List Link :=
  links.filter fun link => link.source ≠ id

/-- The links that leave a block and those that do not are all links together. -/
theorem length_linksElsewhere (id : BlockId) (links : List Link) :
    (linksElsewhere id links).length + (targetsFrom id links).length = links.length := by
  have h := List.length_eq_countP_add_countP (fun link : Link => link.source = id) (l := links)
  simp only [List.countP_eq_length_filter] at h
  simp only [linksElsewhere, targetsFrom, List.length_map]
  simp_all [Nat.add_comm]

/-- Whether a goal is among the blocks of a frontier or can be reached from them over links not yet
    followed. Each link is followed once. -/
def canReach (goal : BlockId) (unfollowed : List Link) : List BlockId → Bool
  | [] => false
  | id :: frontier =>
    id == goal ||
      canReach goal (linksElsewhere id unfollowed) (targetsFrom id unfollowed ++ frontier)
termination_by frontier => unfollowed.length + frontier.length
decreasing_by
  have := length_linksElsewhere id unfollowed
  simp only [List.length_append, List.length_cons]
  omega

namespace Graph

/-- The targets of the links that leave a block, in the order of the links' identifiers. -/
def successors (g : Graph) (id : BlockId) : List BlockId := targetsFrom id g.links.values

/-- Whether a path of links of both handles leads from one block to another. The empty path leads
    from a block to itself. -/
def hasPath (g : Graph) (source target : BlockId) : Bool :=
  canReach target g.links.values [source]

end Graph

end CommandBlocks
