import TreeQuery.Main
import TreeQuery.Search.Lookup
import TreeQuery.Search.Session
import TreeQuery.Selector.Written
import TreeQuery.Proofs.Search.Recursive
import TreeQuery.Proofs.Search.Simulation
import TreeQuery.Proofs.Search.Pulls
import TreeQuery.Proofs.Search.Chains
import TreeQuery.Proofs.Selector.Grammar
import TreeQuery.Proofs.Selector.Parentheses
import TreeQuery.Proofs.Selector.Plain
import TreeQuery.Proofs.Selector.Reading
import TreeQuery.Proofs.Selector.Derivation
import TreeQuery.Proofs.Selector.Shortcut
import TreeQuery.Proofs.Selector.Language
import TreeQuery.Proofs.Tree.Links
import TreeQuery.Proofs.Tree.Linked
import TreeQuery.Proofs.Tree.Ancestors
import TreeQuery.Proofs.Tree.Edits
import TreeQuery.Proofs.Search.Confinement
import TreeQuery.Proofs.Search.Sieve
import TreeQuery.Proofs.Selector.Concatenation
import TreeQuery.Proofs.Query.Outcome
import TreeQuery.Proofs.Selector.Trimmed
import TreeQuery.Proofs.Query.Combinators
import TreeQuery.Proofs.Query.Restriction
import TreeQuery.Proofs.Search.Actions
import TreeQuery.Proofs.Search.Fresh
import TreeQuery.Proofs.Search.Interleaving
import TreeQuery.Proofs.Tree.Isomorphism
import TreeQuery.Proofs.Tree.DocumentOrder
import TreeQuery.Proofs.Search.Carrying
import TreeQuery.Proofs.Markup.Levels
import TreeQuery.Proofs.Query.Shape
import TreeQuery.Proofs.Search.Lookup
import TreeQuery.Proofs.Outline.Preorder
import TreeQuery.Proofs.Outline.Markup
import TreeQuery.Proofs.Outline.Loading
import TreeQuery.Proofs.Markup.Entities
import TreeQuery.Proofs.Markup.Tokens
import TreeQuery.Proofs.Outline.Reading
import TreeQuery.Proofs.Outline.Pairing
import TreeQuery.Proofs.Markup.Lossless
import TreeQuery.Proofs.Markup.Tags
import TreeQuery.Proofs.Tree.Appending
import TreeQuery.Proofs.Search.Coupling
import TreeQuery.Proofs.Search.Blocks
import TreeQuery.Proofs.Query.Order
import TreeQuery.Proofs.Selector.Course
import TreeQuery.Proofs.Selector.Calls
import TreeQuery.Proofs.Warnings
import TreeQuery.Proofs.Selector.Lookahead
import TreeQuery.Proofs.Selector.Openings
import TreeQuery.Proofs.Selector.Parameters
import TreeQuery.Proofs.Selector.Levels
import TreeQuery.Proofs.Selector.Building
import TreeQuery.Proofs.Selector.Prefixes
import TreeQuery.Proofs.Selector.Faults
import TreeQuery.Proofs.Selector.Nesting
import TreeQuery.Proofs.Search.Growth
import TreeQuery.Proofs.Query.Growth
import TreeQuery.Proofs.Search.Bounded
import TreeQuery.Proofs.Selector.Bytes
import TreeQuery.Proofs.Selector.Checked
import TreeQuery.Proofs.Selector.Glance
import TreeQuery.Proofs.Selector.Safety
import TreeQuery.Proofs.Selector.Registered
import TreeQuery.Proofs.Selector.Seams
import TreeQuery.Proofs.Query.Lookup
import TreeQuery.Proofs.Search.Elements
import TreeQuery.Proofs.Tree.Neighbours
import TreeQuery.Proofs.Search.Conjunction
import TreeQuery.Proofs.Command.Modes
import TreeQuery.Proofs.Selector.Case
import TreeQuery.Proofs.Query.Case
