import Boutique.Db.CollectionRuns
import Boutique.Db.StorageRuns
import Boutique.Db.CollectionFaults
import Boutique.Db.CollectionRoom
import Boutique.Db.Leaves
import Boutique.Db.Alignment
import Boutique.Db.CollectionFrames
import Boutique.Db.CollectionKeys
import Boutique.Db.CollectionLoad
import Boutique.Db.CollectionBounds
import Boutique.Db.CollectionProbes
import Boutique.Core.NullTerminated
import Boutique.Protocol.RoundTrip
import Boutique.Protocol.ReaderBounds
import Boutique.Io.SendOrder
import Boutique.Io.EndOfStream
import Boutique.Cli.ReceiveLoop
import Boutique.Server.Segmentation
import Boutique.Server.CursorRounds
import Boutique.Server.DocumentCommands
import Boutique.Server.PutAnswers
import Boutique.Server.AcceptedSchemas
import Boutique.Server.SocketRuns
import Boutique.Server.Isolation
import Boutique.Cli.SchemaLines
import Boutique.Cli.Lookups
import Boutique.Cli.NetworkWaits
