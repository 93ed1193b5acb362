import ApiSyncer.Restart
import ApiSyncer.NullSafety
import ApiSyncer.Durability
import ApiSyncer.StartupOutcome
import ApiSyncer.Placement
import ApiSyncer.SqlText
import ApiSyncer.Responses
import ApiSyncer.NamedIds
import ApiSyncer.Crow.Access
import ApiSyncer.Bodies
import ApiSyncer.Crow.Trie
import ApiSyncer.Crow.Router
import ApiSyncer.Lib.Leaf
import ApiSyncer.Shown
import ApiSyncer.TreeText
import ApiSyncer.Server
import ApiSyncer.Wire
